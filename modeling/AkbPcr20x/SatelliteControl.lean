import AkbPcr20x.Latest
import AkbPcr20x.SatelliteAccuracy

/-! The calls of `struct stv6110x_devctl`. Register fields make up five settings, and a call
sets some of them and keeps the others: whatever the order of the calls, the chip has for
each setting what was asked for last, and the getters report it. -/
namespace AkbPcr20x
namespace Stv6110x

open Memory

theorem bbgain_fits : 0 + 4 ≤ 8 := by decide
theorem lock_fits : 0 + 1 ≤ 8 := by decide

def ctrl2Bbgain : Field := ⟨ctrl2,⟨0,4,bbgain_fits⟩⟩
def stat1Lock : Field := ⟨stat1,⟨0,1,lock_fits⟩⟩

def tunerPhaselocked : U32 := 1

def coDiv (refclock : U32) : U32 :=
  if refclock = 2 then 1
  else if refclock = 4 then 2
  else if refclock = 8 ∨ refclock = 0 then 3
  else 0

variable (bus : Bus)

def setRefclock (refclock : U32) (s : Tuner) : ℤ × Tuner :=
  let s := s.setField ctrl2CoDiv (coDiv refclock)
  (0,(writeReg bus ctrl2 (s.regs ctrl2) s).2)

def getBbgain (s : Tuner) : U32 × Tuner :=
  let s := (readReg bus ctrl2 s).2
  (2 * ctrl2Bbgain.get s.regs,s)

def setBbgain (gain : U32) (s : Tuner) : ℤ × Tuner :=
  let s := s.setField ctrl2Bbgain (gain / 2)
  (0,(writeReg bus ctrl2 (s.regs ctrl2) s).2)

def getStatus (s : Tuner) : U32 × Tuner :=
  let s := (readReg bus stat1 s).2
  (if stat1Lock.get s.regs ≠ 0 then tunerPhaselocked else 0,s)

/-- The calls of `struct stv6110x_devctl`, and `set_params` of `struct dvb_tuner_ops`. -/
inductive Devctl
  | init
  | sleep
  | setMode (mode : TunerMode)
  | setFrequency (frequency : U32)
  | getFrequency
  | setBandwidth (bandwidth : U32)
  | getBandwidth
  | setBbgain (gain : U32)
  | getBbgain
  | setRefclk (refclk : U32)
  | getStatus
  | setParams (frequency bandwidthHz : U32)

def ofSetter (r : ℤ × Tuner) : (ℤ × Option U32) × Tuner := ((r.1,none),r.2)

/-- A getter always returns 0, with what it found. -/
def ofGetter (r : U32 × Tuner) : (ℤ × Option U32) × Tuner := ((0,some r.1),r.2)

def Devctl.exec (s : Tuner) : Devctl → (ℤ × Option U32) × Tuner
  | .init => ofSetter (Stv6110x.init bus s)
  | .sleep => ofSetter (Stv6110x.sleep bus s)
  | .setMode mode => ofSetter (Stv6110x.setMode bus mode s)
  | .setFrequency frequency => ofSetter (Stv6110x.setFrequency Config.tunerS bus frequency s)
  | .getFrequency => ofGetter (Stv6110x.getFrequency Config.tunerS bus s)
  | .setBandwidth bandwidth => ofSetter (Stv6110x.setBandwidth bus bandwidth s)
  | .getBandwidth => ofGetter (Stv6110x.getBandwidth bus s)
  | .setBbgain gain => ofSetter (Stv6110x.setBbgain bus gain s)
  | .getBbgain => ofGetter (Stv6110x.getBbgain bus s)
  | .setRefclk refclk => ofSetter (Stv6110x.setRefclock bus refclk s)
  | .getStatus => ofGetter (Stv6110x.getStatus bus s)
  | .setParams frequency bandwidthHz =>
    ofSetter (Stv6110x.setParams Config.tunerS bus frequency bandwidthHz s)

def runDevctl : List Devctl → Tuner → List (ℤ × Option U32) × Tuner
  | [], s => ([],s)
  | c::cs, s =>
    let r := c.exec bus s
    let rest := runDevctl cs r.2
    (r.1::rest.1,rest.2)

structure Lo where
  n : U32
  rDiv : U32
  presc32On : U32
  div4sel : U32

def lo (frequency : U32) : Lo where
  n := divider Config.tunerS frequency
  rDiv := BitVec.ofNat 32 (rDivOpt Config.tunerS (band frequency).2.2)
  presc32On := (band frequency).2.1
  div4sel := (band frequency).1

def Lo.frequency (l : Lo) : U32 :=
  (l.n * Config.tunerS.refclockKhz / ((1 : U32) <<< (l.rDiv + l.div4sel).toNat)) >>> 2

/-- The settings, each on its own. -/
structure Knobs where
  mode : TunerMode
  lo : Lo
  cf : U32
  gain : U32
  coDiv : U32

def Knobs.default : Knobs := ⟨.wake,⟨1500,2,0,0⟩,23,1,0⟩

def Devctl.mode : Devctl → Option TunerMode
  | .sleep => some .sleep
  | .setMode mode => some mode
  | .setParams _ _ => some Knobs.default.mode
  | _ => none

def Devctl.frequency : Devctl → Option U32
  | .setFrequency frequency => some frequency
  | .setParams frequency _ => some frequency
  | _ => none

def Devctl.lo (c : Devctl) : Option Lo := c.frequency.map Stv6110x.lo

def Devctl.cf : Devctl → Option U32
  | .setBandwidth bandwidth => some (cutOff bandwidth)
  | .setParams _ bandwidthHz => some (cutOff bandwidthHz)
  | _ => none

def Devctl.gain : Devctl → Option U32
  | .setBbgain gain => some (gain / 2)
  | .setParams _ _ => some Knobs.default.gain
  | _ => none

def Devctl.coDiv : Devctl → Option U32
  | .setRefclk refclk => some (Stv6110x.coDiv refclk)
  | .setParams _ _ => some Knobs.default.coDiv
  | _ => none

/-- What a call asks for replaces what was there. -/
def Knobs.step (k : Knobs) (c : Devctl) : Knobs :=
  ⟨c.mode.getD k.mode,c.lo.getD k.lo,c.cf.getD k.cf,c.gain.getD k.gain,c.coDiv.getD k.coDiv⟩

/-- The result of a call on the settings. The status is the chip's own. -/
def Knobs.Answers (k : Knobs) (o : Option U32) : Devctl → Prop
  | .getFrequency => o = some k.lo.frequency
  | .getBandwidth => o = some ((k.cf + 5) * 2000000)
  | .getBbgain => o = some (2 * k.gain)
  | .getStatus => o = some 0 ∨ o = some tunerPhaselocked
  | _ => o = none

/-- Frequencies of the tuner, and a gain that its field can hold. -/
def Devctl.Fits : Devctl → Prop
  | .setFrequency frequency => frequency.toNat ≤ 2150000
  | .setParams frequency _ => frequency.toNat ≤ 2150000
  | .setBbgain gain => gain.toNat < 32
  | _ => True

instance : DecidablePred Devctl.Fits
  | .setFrequency frequency => inferInstanceAs (Decidable (frequency.toNat ≤ 2150000))
  | .setParams frequency _ => inferInstanceAs (Decidable (frequency.toNat ≤ 2150000))
  | .setBbgain gain => inferInstanceAs (Decidable (gain.toNat < 32))
  | .init | .sleep | .setMode _ | .getFrequency | .setBandwidth _ | .getBandwidth | .getBbgain
  | .setRefclk _ | .getStatus => inferInstanceAs (Decidable True)

def TunerMode.on : TunerMode → U32
  | .sleep => 0
  | .wake => 1

def modeFields : List Field := [ctrl1Syn,ctrl1Rx,ctrl1Lpt]
def loFields : List Field := [tng1NDiv,tng0NDiv,tng1RDiv,tng1Presc32On,tng1Div4sel]

structure Lo.Shown (l : Lo) (regs : Mem Byte) : Prop where
  n : tng1NDiv.get regs <<< 8 ||| tng0NDiv.get regs = l.n
  rDiv : tng1RDiv.get regs = l.rDiv
  presc32On : tng1Presc32On.get regs = l.presc32On
  div4sel : tng1Div4sel.get regs = l.div4sel

/-- The registers say what the settings are. -/
structure Knobs.Shown (k : Knobs) (regs : Mem Byte) : Prop where
  mode : ∀ f ∈ modeFields, f.get regs = k.mode.on
  lo : k.lo.Shown regs
  cf : ctrl3Cf.get regs = k.cf
  gain : ctrl2Bbgain.get regs = k.gain
  coDiv : ctrl2CoDiv.get regs = k.coDiv

variable {bus} {k : Knobs} {regs regs' : Mem Byte} {s : Tuner}

/-- `regs'` has the same value in each of the fields. -/
def Kept (fs : List Field) (regs regs' : Mem Byte) : Prop := ∀ g ∈ fs, g.get regs' = g.get regs

theorem kept_setFields {l : List (Field × U32)} (hl : Fit l) {fs : List Field}
    (h : ∀ g ∈ fs, ∀ f ∈ l.map (·.1), f.Apart g) : Kept fs s.regs (s.setFields l).regs :=
  fun g hg => get_setFields_of_apart hl (h g hg) s

theorem kept_setField {f : Field} {v : U32} (hv : f.bits.Holds v) {fs : List Field}
    (h : ∀ g ∈ fs, f.Apart g) : Kept fs s.regs (s.setField f v).regs :=
  fun g hg => get_setField_of_apart (h g hg) hv s

theorem Kept.mode (h : Kept modeFields regs regs') (hm : ∀ f ∈ modeFields, f.get regs = k.mode.on) :
    ∀ f ∈ modeFields, f.get regs' = k.mode.on :=
  fun f hf => (h f hf).trans (hm f hf)

theorem Kept.lo {l : Lo} (h : Kept loFields regs regs') (hl : l.Shown regs) : l.Shown regs' := by
  simp only [Kept,loFields,List.forall_mem_cons] at h
  obtain ⟨hh,hn,hr,hp,hd,_⟩ := h
  refine ⟨?_,hr.trans hl.rDiv,hp.trans hl.presc32On,hd.trans hl.div4sel⟩
  rw [hh,hn]
  exact hl.n

theorem Kept.value {f : Field} {v : U32} (h : Kept [f] regs regs') (hv : f.get regs = v) :
    f.get regs' = v :=
  (h f (List.mem_singleton_self f)).trans hv

theorem Knobs.Shown.congr (h : k.Shown regs)
    (he : Kept (modeFields ++ loFields ++ [ctrl3Cf,ctrl2Bbgain,ctrl2CoDiv]) regs regs') :
    k.Shown regs' := by
  simp only [Kept,List.forall_mem_append,List.forall_mem_cons] at he
  obtain ⟨⟨hm,hl⟩,hc,hg,hd,_⟩ := he
  exact ⟨Kept.mode hm h.mode,Kept.lo hl h.lo,hc.trans h.cf,hg.trans h.gain,hd.trans h.coDiv⟩

/-- STAT1 and the registers behind it show nothing. -/
theorem Knobs.Shown.congr_regs (h : k.Shown regs) (he : ∀ reg < stat1, regs' reg = regs reg) :
    k.Shown regs' := by
  have hlt : ∀ g ∈ modeFields ++ loFields ++ [ctrl3Cf,ctrl2Bbgain,ctrl2CoDiv], g.reg < stat1 := by
    decide
  exact h.congr fun g hg => Field.get_congr (he _ (hlt g hg))

theorem coDiv_lt (refclock : U32) : (coDiv refclock).toNat < 2^2 := by
  rw [coDiv]
  split_ifs <;> decide

def TunerMode.assign (mode : TunerMode) : List (Field × U32) := modeFields.map fun f => (f,mode.on)

theorem TunerMode.fit (mode : TunerMode) : Fit mode.assign := by
  have ho : mode.on.toNat < 2^1 := by cases mode <;> decide
  intro a ha
  simp only [TunerMode.assign,modeFields,List.map_cons,List.map_nil,List.mem_cons,List.not_mem_nil,
    or_false] at ha
  rcases ha with rfl | rfl | rfl <;> exact ho

namespace Knobs.Shown

theorem setMode (h : k.Shown s.regs) (mode : TunerMode) :
    Knobs.Shown {k with mode := mode} (s.setFields mode.assign).regs := by
  have hset := get_setFields mode.fit (show List.Pairwise _ modeFields by decide) s
  have hkeep {fs : List Field} (hf : ∀ g ∈ fs, ∀ f ∈ modeFields, f.Apart g) :
      Kept fs s.regs _ := kept_setFields mode.fit hf
  exact ⟨fun f hf => hset (f,mode.on) (List.mem_map_of_mem hf),(hkeep (by decide)).lo h.lo,
    (hkeep (by decide)).value h.cf,(hkeep (by decide)).value h.gain,
    (hkeep (by decide)).value h.coDiv⟩

theorem setFrequency (h : k.Shown s.regs) {frequency : U32} (hf : frequency.toNat ≤ 2150000) :
    Knobs.Shown {k with lo := Stv6110x.lo frequency}
      (s.setFields (frequencyFields Config.tunerS frequency)).regs := by
  have hfit := frequency_fit hf
  have hset := get_setFields hfit (by rw [frequencyFields_map]; decide) s
  simp only [frequencyFields,List.forall_mem_cons] at hset
  obtain ⟨_,hdiv4,hpresc,hrdiv,hhigh,hlow,_⟩ := hset
  have hkeep {fs : List Field} (hg : ∀ g ∈ fs, ∀ f ∈ [ctrl1K,tng1Div4sel,tng1Presc32On,tng1RDiv,
      tng1NDiv,tng0NDiv,stat1CalvcoStrt], f.Apart g) : Kept fs s.regs _ := kept_setFields hfit hg
  refine ⟨(hkeep (by decide)).mode h.mode,⟨?_,hrdiv,hpresc,hdiv4⟩,(hkeep (by decide)).value h.cf,
    (hkeep (by decide)).value h.gain,(hkeep (by decide)).value h.coDiv⟩
  rw [frequencyFields,hhigh,hlow,(divider_high hf).2,word_join]
  rfl

theorem setCf (h : k.Shown s.regs) (bandwidth : U32) :
    Knobs.Shown {k with cf := cutOff bandwidth} (s.setFields (bandwidthFields bandwidth)).regs := by
  have hfit := bandwidth_fit bandwidth
  have hset := get_setFields hfit (by rw [bandwidthFields_map]; decide) s
  simp only [bandwidthFields,List.forall_mem_cons] at hset
  have hkeep {fs : List Field} (hg : ∀ g ∈ fs, ∀ f ∈ [ctrl3Cf,ctrl3RcclkOff,stat1CalrcStrt],
      f.Apart g) : Kept fs s.regs _ := kept_setFields hfit hg
  exact ⟨(hkeep (by decide)).mode h.mode,(hkeep (by decide)).lo h.lo,hset.1,
    (hkeep (by decide)).value h.gain,(hkeep (by decide)).value h.coDiv⟩

theorem setRcclkOff (h : k.Shown s.regs) : k.Shown (s.setField ctrl3RcclkOff 1).regs := by
  have hv : ctrl3RcclkOff.bits.Holds (1 : U32) := show (1 : U32).toNat < 2^1 by decide
  exact h.congr (kept_setField hv (by decide))

theorem setGain (h : k.Shown s.regs) {v : U32} (hv : ctrl2Bbgain.bits.Holds v) :
    Knobs.Shown {k with gain := v} (s.setField ctrl2Bbgain v).regs := by
  have hkeep {fs : List Field} (hg : ∀ g ∈ fs, ctrl2Bbgain.Apart g) : Kept fs s.regs _ :=
    kept_setField hv hg
  exact ⟨(hkeep (by decide)).mode h.mode,(hkeep (by decide)).lo h.lo,
    (hkeep (by decide)).value h.cf,get_setField _ hv s,(hkeep (by decide)).value h.coDiv⟩

theorem setCoDiv (h : k.Shown s.regs) (refclock : U32) :
    Knobs.Shown {k with coDiv := Stv6110x.coDiv refclock}
      (s.setField ctrl2CoDiv (Stv6110x.coDiv refclock)).regs := by
  have hv : ctrl2CoDiv.bits.Holds (Stv6110x.coDiv refclock) := coDiv_lt refclock
  have hkeep {fs : List Field} (hg : ∀ g ∈ fs, ctrl2CoDiv.Apart g) : Kept fs s.regs _ :=
    kept_setField hv hg
  exact ⟨(hkeep (by decide)).mode h.mode,(hkeep (by decide)).lo h.lo,
    (hkeep (by decide)).value h.cf,(hkeep (by decide)).value h.gain,get_setField _ hv s⟩

end Knobs.Shown

/-- The chip and the shadow registers both say what the settings are. The outcomes counted
from `n₀` and `r₀` on are still to come. -/
structure Agree (n₀ r₀ : ℕ) (k : Knobs) (s : Tuner) : Prop where
  synced : Synced s.sent.length [] s
  shown : k.Shown s.regs
  sent : n₀ ≤ s.sent.length
  reads : r₀ ≤ s.reads

variable {n₀ r₀ : ℕ} {k' : Knobs}

theorem Agree.of_synced {n : ℕ} (hs : Synced n [] s) (hk : k.Shown s.regs) (hn : n₀ ≤ n)
    (hr : r₀ ≤ s.reads) : Agree n₀ r₀ k s :=
  ⟨⟨rfl,hs.agree⟩,hk,hs.sent ▸ hn,hr⟩

theorem Agree.chip (h : Agree n₀ r₀ k s) : k.Shown s.chip :=
  h.shown.congr_regs fun reg hr => h.synced.agree reg hr List.not_mem_nil

theorem Agree.write (h : Agree n₀ r₀ k s) (hw : ∀ j, n₀ ≤ j → bus.write j = 1)
    {l : List (Field × U32)} {reg : ℕ} (hr : reg < 8) (hl : ∀ a ∈ l, a.1.reg = reg)
    (hk : k'.Shown (s.setFields l).regs) :
    Agree n₀ r₀ k' (writeReg bus reg ((s.setFields l).regs reg) (s.setFields l)).2 := by
  have hs := (h.synced.setFields l).write hr (hw _ h.sent)
  refine Agree.of_synced (hs.clean fun r hm => ?_) ?_ (h.sent.trans (Nat.le_succ _)) ?_
  · obtain ⟨hm,hne⟩ := List.mem_filter.mp hm
    rw [List.append_nil,List.mem_map] at hm
    obtain ⟨a,ha,rfl⟩ := hm
    rw [hl a ha] at hne
    simp at hne
  · rw [writeReg_regs]
    exact hk
  · rw [writeReg_reads,setFields_reads]
    exact h.reads

/-- The driver already has what it reads. -/
theorem Agree.read_eq (h : Agree n₀ r₀ k s) (hr : ∀ j, r₀ ≤ j → bus.read j = 2) {reg : ℕ}
    (hlt : reg < stat1) : (readReg bus reg s).2 = {s with reads := s.reads + 1} := by
  rw [readReg_eq bus hlt (hr _ h.reads),h.synced.agree reg hlt List.not_mem_nil,
    Function.update_eq_self]

theorem Agree.read (h : Agree n₀ r₀ k s) (hr : ∀ j, r₀ ≤ j → bus.read j = 2) {reg : ℕ}
    (hlt : reg < stat1) : Agree n₀ r₀ k (readReg bus reg s).2 := by
  rw [h.read_eq hr hlt]
  exact ⟨⟨rfl,h.synced.agree⟩,h.shown,h.sent,h.reads.trans (Nat.le_succ _)⟩

structure Done (n₀ r₀ : ℕ) (k : Knobs) (c : Devctl) (r : (ℤ × Option U32) × Tuner) : Prop where
  ret : r.1.1 = 0
  answers : (k.step c).Answers r.1.2 c
  agree : Agree n₀ r₀ (k.step c) r.2

section Calls

variable (hw : ∀ j, n₀ ≤ j → bus.write j = 1) (hr : ∀ j, r₀ ≤ j → bus.read j = 2)
include hw

theorem init_ret (hn : n₀ ≤ s.sent.length) : (Stv6110x.init bus s).1 = 0 := by
  rw [init_eq,if_pos (hw _ hn)]

theorem init_agree (hk : k.Shown s.regs) (hn : n₀ ≤ s.sent.length) (hs : r₀ ≤ s.reads) :
    Agree n₀ r₀ k (Stv6110x.init bus s).2 := by
  refine Agree.of_synced (init_synced (hw _ hn)) ?_ (hn.trans (Nat.le_succ _)) ?_
  · rw [init_regs]
    exact hk
  · rw [init_eq,if_pos (hw _ hn)]
    exact hs

theorem setMode_done (h : Agree n₀ r₀ k s) (mode : TunerMode) :
    (setMode bus mode s).1 = 0 ∧ Agree n₀ r₀ {k with mode := mode} (setMode bus mode s).2 := by
  have hl : ∀ a ∈ mode.assign, a.1.reg = ctrl1 := by
    intro a ha
    obtain ⟨f,hf,rfl⟩ := List.mem_map.mp ha
    exact (by decide : ∀ f ∈ modeFields, f.reg = ctrl1) f hf
  have ha := h.write hw (show ctrl1 < 8 by decide) hl (h.shown.setMode mode)
  have hret : ¬ (writeReg bus ctrl1 ((s.setFields mode.assign).regs ctrl1)
      (s.setFields mode.assign)).1 < 0 := by
    rw [writeReg_eq bus (by decide),setFields_sent,if_pos (hw _ h.sent)]
    exact lt_irrefl (0 : ℤ)
  have he : setMode bus mode s = (0,(writeReg bus ctrl1 ((s.setFields mode.assign).regs ctrl1)
      (s.setFields mode.assign)).2) := by
    cases mode <;> exact if_neg hret
  rw [he]
  exact ⟨rfl,ha⟩

theorem setFrequency_agree (h : Agree n₀ r₀ k s) {frequency : U32}
    (hf : frequency.toNat ≤ 2150000) :
    Agree n₀ r₀ {k with lo := lo frequency}
      (setFrequency Config.tunerS bus frequency s).2 := by
  have hs := setFrequency_synced Config.tunerS frequency h.synced fun j _ =>
    hw _ (h.sent.trans (Nat.le_add_right _ j))
  refine Agree.of_synced hs ?_ (h.sent.trans (Nat.le_add_right _ _)) ?_
  · exact (h.shown.setFrequency hf).congr_regs fun reg hr => setFrequency_regs frequency s hr.ne
  · refine h.reads.trans (le_trans (le_of_eq ?_) (waitStat1_reads bus _ _ _))
    simp only [writeReg_reads,setFields_reads]

theorem setBandwidth_agree (h : Agree n₀ r₀ k s) (bandwidth : U32) :
    Agree n₀ r₀ {k with cf := cutOff bandwidth} (setBandwidth bus bandwidth s).2 := by
  have hs := setBandwidth_synced bandwidth h.synced fun j _ =>
    hw _ (h.sent.trans (Nat.le_add_right _ j))
  obtain ⟨t,ht,hk⟩ := setBandwidth_regs bus bandwidth s
  refine Agree.of_synced hs ?_ (h.sent.trans (Nat.le_add_right _ _)) ?_
  · rw [ht]
    have hc := (h.shown.setCf bandwidth).congr_regs fun reg hr => hk reg hr.ne
    exact hc.setRcclkOff
  · simp only [setBandwidth,writeReg_reads,setField_reads]
    refine h.reads.trans (le_trans (le_of_eq ?_) (waitStat1_reads bus _ _ _))
    simp only [writeReg_reads,setFields_reads]

theorem setBbgain_agree (h : Agree n₀ r₀ k s) {gain : U32} (hg : gain.toNat < 32) :
    Agree n₀ r₀ {k with gain := gain / 2} (setBbgain bus gain s).2 := by
  have hv : ctrl2Bbgain.bits.Holds (gain / 2) := by
    change (gain / 2).toNat < 2^4
    rw [BitVec.toNat_udiv]
    change gain.toNat / 2 < 16
    omega
  refine h.write hw (l:=[(ctrl2Bbgain,gain / 2)]) (show ctrl2 < 8 by decide) ?_ (h.shown.setGain hv)
  intro a ha
  rw [List.mem_singleton.mp ha]
  rfl

theorem setRefclock_agree (h : Agree n₀ r₀ k s) (refclock : U32) :
    Agree n₀ r₀ {k with coDiv := coDiv refclock} (setRefclock bus refclock s).2 := by
  refine h.write hw (l:=[(ctrl2CoDiv,coDiv refclock)]) (show ctrl2 < 8 by decide) ?_
    (h.shown.setCoDiv refclock)
  intro a ha
  rw [List.mem_singleton.mp ha]
  rfl

theorem setParams_agree (hn : n₀ ≤ s.sent.length) (hs : r₀ ≤ s.reads) {frequency : U32}
    (hf : frequency.toNat ≤ 2150000) (bandwidthHz : U32) :
    (setParams Config.tunerS bus frequency bandwidthHz s).1 = 0 ∧
      Agree n₀ r₀ {Knobs.default with lo := lo frequency, cf := cutOff bandwidthHz}
        (setParams Config.tunerS bus frequency bandwidthHz s).2 := by
  obtain ⟨hsent,hreads⟩ := setup_keeps Config.tunerS s
  have hd : Knobs.default.Shown (setup Config.tunerS s).regs := by
    have hdef : Knobs.default.Shown fun reg => defaultRegs.getD reg 0 :=
      ⟨by decide,⟨by decide,by decide,by decide,by decide⟩,by decide,by decide,by decide⟩
    exact hdef.congr_regs fun reg hr => setup_regs s (hr.trans (by decide))
  have hi := init_agree hw hd (hsent ▸ hn) (hreads ▸ hs)
  rw [setParams_ok Config.tunerS frequency bandwidthHz (hw _ hn)]
  exact ⟨rfl,setBandwidth_agree hw (setFrequency_agree hw hi hf) bandwidthHz⟩

end Calls

theorem getFrequency_agree (h : Agree n₀ r₀ k s) (hr : ∀ j, r₀ ≤ j → bus.read j = 2) :
    (getFrequency Config.tunerS bus s).1 = k.lo.frequency ∧
      Agree n₀ r₀ k (getFrequency Config.tunerS bus s).2 := by
  have h₁ := h.read hr (show tng1 < stat1 by decide)
  refine ⟨?_,h₁.read hr (show tng0 < stat1 by decide)⟩
  have hc := h.chip.lo
  rw [getFrequency_eq Config.tunerS (hr _ h.reads) (hr _ (h.reads.trans (Nat.le_succ _))),hc.n,
    hc.rDiv,hc.div4sel]
  rfl

theorem getBandwidth_agree (h : Agree n₀ r₀ k s) (hr : ∀ j, r₀ ≤ j → bus.read j = 2) :
    (getBandwidth bus s).1 = (k.cf + 5) * 2000000 ∧ Agree n₀ r₀ k (getBandwidth bus s).2 := by
  refine ⟨?_,h.read hr (show ctrl3 < stat1 by decide)⟩
  rw [getBandwidth_eq (hr _ h.reads),h.chip.cf]

theorem getBbgain_agree (h : Agree n₀ r₀ k s) (hr : ∀ j, r₀ ≤ j → bus.read j = 2) :
    (getBbgain bus s).1 = 2 * k.gain ∧ Agree n₀ r₀ k (getBbgain bus s).2 := by
  refine ⟨?_,h.read hr (show ctrl2 < stat1 by decide)⟩
  simp only [getBbgain]
  rw [h.read_eq hr (show ctrl2 < stat1 by decide),h.shown.gain]

theorem getStatus_agree (h : Agree n₀ r₀ k s) :
    ((getStatus bus s).1 = 0 ∨ (getStatus bus s).1 = tunerPhaselocked) ∧
      Agree n₀ r₀ k (getStatus bus s).2 := by
  obtain ⟨v,hv⟩ : ∃ v, (readReg bus stat1 s).2 =
      {s with regs := Function.update s.regs stat1 v, reads := s.reads + 1} := by
    rw [readReg]
    by_cases hk : bus.read s.reads ≠ 2
    · exact ⟨s.regs stat1,by rw [if_pos hk,Function.update_eq_self]⟩
    · exact ⟨_,by rw [if_neg hk]⟩
  refine ⟨?_,?_⟩
  · rw [getStatus]
    exact (ite_eq_or_eq _ _ _).symm
  · rw [getStatus,hv]
    have he : ∀ reg < stat1, Function.update s.regs stat1 v reg = s.regs reg := fun reg hlt =>
      Function.update_of_ne hlt.ne _ _
    refine ⟨⟨rfl,fun reg hlt hd => ?_⟩,h.shown.congr_regs he,h.sent,h.reads.trans (Nat.le_succ _)⟩
    exact (h.synced.agree reg hlt hd).trans (he reg hlt).symm

/-- Every call does what it asks for, and nothing else. -/
theorem Agree.exec (h : Agree n₀ r₀ k s) (hw : ∀ j, n₀ ≤ j → bus.write j = 1)
    (hr : ∀ j, r₀ ≤ j → bus.read j = 2) {c : Devctl} (hc : c.Fits) :
    Done n₀ r₀ k c (c.exec bus s) := by
  cases c with
  | init =>
    exact ⟨init_ret hw h.sent,rfl,init_agree hw h.shown h.sent h.reads⟩
  | sleep =>
    obtain ⟨hret,ha⟩ := setMode_done hw h .sleep
    exact ⟨hret,rfl,ha⟩
  | setMode mode =>
    obtain ⟨hret,ha⟩ := setMode_done hw h mode
    exact ⟨hret,rfl,ha⟩
  | setFrequency frequency => exact ⟨rfl,rfl,setFrequency_agree hw h hc⟩
  | getFrequency =>
    obtain ⟨ho,ha⟩ := getFrequency_agree h hr
    exact ⟨rfl,congrArg some ho,ha⟩
  | setBandwidth bandwidth => exact ⟨rfl,rfl,setBandwidth_agree hw h bandwidth⟩
  | getBandwidth =>
    obtain ⟨ho,ha⟩ := getBandwidth_agree h hr
    exact ⟨rfl,congrArg some ho,ha⟩
  | setBbgain gain => exact ⟨rfl,rfl,setBbgain_agree hw h hc⟩
  | getBbgain =>
    obtain ⟨ho,ha⟩ := getBbgain_agree h hr
    exact ⟨rfl,congrArg some ho,ha⟩
  | setRefclk refclk => exact ⟨rfl,rfl,setRefclock_agree hw h refclk⟩
  | getStatus =>
    obtain ⟨ho,ha⟩ := getStatus_agree h
    exact ⟨rfl,ho.imp (congrArg some) (congrArg some),ha⟩
  | setParams frequency bandwidthHz =>
    obtain ⟨hret,ha⟩ := setParams_agree hw h.sent h.reads hc bandwidthHz
    exact ⟨hret,rfl,ha⟩

/-- A frequency of the tuner is reported as the multiple of 1000 kHz nearest to it. -/
theorem lo_frequency {frequency : U32} (h : frequency.toNat ≤ 2150000) :
    (lo frequency).frequency.toNat = 1000 * ((frequency.toNat + 500) / 1000) := by
  have hk : (Config.tunerS.refclockKhz).toNat = 16000 := by decide
  have h4 : ((1 : U32) <<< ((lo frequency).rDiv + (lo frequency).div4sel).toNat).toNat = 4 := by
    obtain ⟨_,_,⟨hd,_,hr⟩ | ⟨hd,_,hr⟩⟩ := band_cases frequency
    · simp only [lo,hd,hr]
      decide
    · simp only [lo,hd,hr]
      decide
  rw [Lo.frequency,BitVec.toNat_ushiftRight,BitVec.toNat_udiv,BitVec.toNat_mul,hk,h4,
    Nat.shiftRight_eq_div_pow]
  change (divider Config.tunerS frequency).toNat * 16000 % 2^32 / 4 / 2^2 = _
  rw [divider_toNat h]
  omega

def Knobs.after (k : Knobs) (cs : List Devctl) : Knobs :=
  ⟨latest Devctl.mode cs k.mode,latest Devctl.lo cs k.lo,latest Devctl.cf cs k.cf,
    latest Devctl.gain cs k.gain,latest Devctl.coDiv cs k.coDiv⟩

theorem Knobs.after_cons (k : Knobs) (c : Devctl) (cs : List Devctl) :
    k.after (c::cs) = (k.step c).after cs := by
  simp only [Knobs.after,latest_cons,Knobs.step]

theorem Agree.run (hw : ∀ j, n₀ ≤ j → bus.write j = 1) (hr : ∀ j, r₀ ≤ j → bus.read j = 2)
    {cs : List Devctl} (hc : ∀ c ∈ cs, c.Fits) (h : Agree n₀ r₀ k s) :
    (∀ r ∈ (runDevctl bus cs s).1, r.1 = 0) ∧ Agree n₀ r₀ (k.after cs) (runDevctl bus cs s).2 := by
  induction cs generalizing k s with
  | nil => exact ⟨fun r hm => absurd hm List.not_mem_nil,h⟩
  | cons c cs ih =>
    rw [List.forall_mem_cons] at hc
    have hd := h.exec hw hr hc.1
    obtain ⟨hret,ha⟩ := ih hc.2 hd.agree
    rw [Knobs.after_cons]
    exact ⟨List.forall_mem_cons.mpr ⟨hd.ret,hret⟩,ha⟩

/-- Once the I2C errors are over, whatever they left behind, the first tune brings the tuner
back under control: after it and any further calls all of them have succeeded, the chip and
the driver's registers have for each setting what was asked for last, and the next call
answers with that: the frequency as the multiple of 1000 kHz nearest to it. -/
theorem devctl_controls (bus : Bus) (s : Tuner) (frequency bandwidthHz : U32) (cs : List Devctl)
    (c : Devctl) (hw : ∀ j, s.sent.length ≤ j → bus.write j = 1)
    (hr : ∀ j, s.reads ≤ j → bus.read j = 2)
    (hcs : ∀ a ∈ Devctl.setParams frequency bandwidthHz::cs, a.Fits) (hc : c.Fits) :
    let r := runDevctl bus (.setParams frequency bandwidthHz::cs) s
    let k := Knobs.default.after (.setParams frequency bandwidthHz::cs)
    (∀ a ∈ r.1, a.1 = 0) ∧ k.Shown r.2.chip ∧ k.Shown r.2.regs ∧
      (c.exec bus r.2).1.1 = 0 ∧ (k.step c).Answers (c.exec bus r.2).1.2 c ∧
      k.lo.frequency.toNat = 1000 * (((latest Devctl.frequency cs frequency).toNat + 500) / 1000) := by
  intro r k
  rw [List.forall_mem_cons] at hcs
  obtain ⟨hret,ha⟩ := setParams_agree hw le_rfl le_rfl hcs.1 bandwidthHz
  obtain ⟨hall,hrun⟩ := ha.run hw hr hcs.2
  have hk : k = Knobs.after {Knobs.default with lo := lo frequency, cf := cutOff bandwidthHz} cs :=
    Knobs.after_cons _ _ _
  rw [← hk] at hrun
  have hd := hrun.exec hw hr hc
  have hlo : k.lo = lo (latest Devctl.frequency cs frequency) := by
    rw [hk]
    exact latest_map Devctl.frequency lo cs frequency
  have hf : (latest Devctl.frequency cs frequency).toNat ≤ 2150000 := by
    refine latest_of_forall (p:=fun f : U32 => f.toNat ≤ 2150000) (fun a ha f he => ?_) hcs.1
    have hfit := hcs.2 a ha
    cases a <;> cases he <;> exact hfit
  exact ⟨List.forall_mem_cons.mpr ⟨hret,hall⟩,hrun.chip,hrun.shown,hd.ret,hd.answers,
    hlo ▸ lo_frequency hf⟩

/-- The gain stays while the tuner sleeps and is tuned elsewhere. -/
theorem devctl_controls_sample :
    let s := (runDevctl quiet [.setParams 1049480 28860000,.setBbgain 12,.sleep,
      .setFrequency 1318400,.setRefclk 4,.setBandwidth 20000000] probed).2
    (getBbgain quiet s).1 = 12 ∧ (getFrequency Config.tunerS quiet s).1.toNat = 1318000 := by
  have h (c : Devctl) (hc : c.Fits) := devctl_controls quiet probed 1049480 28860000
    [.setBbgain 12,.sleep,.setFrequency 1318400,.setRefclk 4,.setBandwidth 20000000] c
    (fun _ _ => rfl) (fun _ _ => rfl) (by decide) hc
  have hg := (h .getBbgain trivial).2.2.2.2.1
  obtain ⟨hf,hk⟩ := (h .getFrequency trivial).2.2.2.2
  refine ⟨Option.some.inj hg,?_⟩
  exact (congrArg BitVec.toNat (Option.some.inj hf)).trans hk

end Stv6110x
end AkbPcr20x
