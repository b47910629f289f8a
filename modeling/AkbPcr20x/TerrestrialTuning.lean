import AkbPcr20x.Approximation
import AkbPcr20x.Issue
import AkbPcr20x.Mxl5007t

/-! ISDB-T tuning: the frequency word is the nearest step of 15.625 kHz, and what a call
sends to the chip depends on its parameters and the configuration only. -/
namespace AkbPcr20x
namespace Mxl5007t

open Approximation Issue
open TunerInstances (transferred mxlFail mxlFail_transferred)

def RfSplit.split (l : RfSplit) : Split :=
  ⟨l.digRfFreq.toNat,l.temp.toNat,l.fracDivider.toNat⟩

theorem RfSplit.turn_split {l : RfSplit} (h : 2 * (l.digRfFreq.toNat + 1) ≤ 2^32) :
    l.turn.split = l.split.halve := by
  have hs : (l.digRfFreq <<< 1).toNat = 2 * l.digRfFreq.toNat := by
    rw [BitVec.toNat_shiftLeft,Nat.shiftLeft_eq,Nat.mod_eq_of_lt (by omega)]
    omega
  have hd : (l.fracDivider / 2).toNat = l.fracDivider.toNat / 2 := rfl
  rw [turn,Split.halve]
  by_cases hl : l.fracDivider / 2 < l.temp
  · have hn : l.split.unit / 2 < l.split.rest := hl
    have hsub : (l.temp - l.fracDivider / 2).toNat = l.temp.toNat - l.fracDivider.toNat / 2 :=
      BitVec.toNat_sub_of_le (BitVec.le_of_lt hl)
    have hadd : (l.digRfFreq <<< 1 + 1).toNat = 2 * l.digRfFreq.toNat + 1 := by
      rw [BitVec.toNat_add_of_lt,hs]
      · rfl
      · rw [hs]
        exact h
    rw [if_pos hn]
    simp only [hl,if_true,split,hadd,hsub,hd]
  · have hn : ¬ l.split.unit / 2 < l.split.rest := hl
    rw [if_neg hn]
    simp only [hl,if_false,split,hs,hd]

theorem RfSplit.loop_split (n : ℕ) {l : RfSplit} (h : 2^n * (l.digRfFreq.toNat + 1) ≤ 2^32) :
    (loop n l).split = l.split.refine n := by
  induction n generalizing l with
  | zero => rfl
  | succ n ih =>
    have ht : l.turn.split = l.split.halve := by
      apply turn_split
      rw [pow_succ] at h
      exact le_trans (Nat.mul_le_mul_right _ (Nat.le_mul_of_pos_left 2 (by positivity))) h
    have hv : l.turn.digRfFreq.toNat + 1 ≤ 2 * (l.digRfFreq.toNat + 1) := by
      have hh := l.split.halve_value
      rw [← ht] at hh
      exact hh
    rw [loop,ih,ht,Split.refine]
    calc
      2^n * (l.turn.digRfFreq.toNat + 1) ≤ 2^n * (2 * (l.digRfFreq.toNat + 1)) :=
        Nat.mul_le_mul_left _ hv
      _ = 2^(n+1) * (l.digRfFreq.toNat + 1) := by ring
      _ ≤ 2^32 := h

/-- The word is the frequency in steps of 15625 Hz, rounded; nothing overflows. -/
theorem digRfFreq_toNat (rfFreq : U32) :
    (digRfFreq rfFreq).toNat = (rfFreq.toNat + 7812) / 15625 := by
  have hlt := rfFreq.isLt
  have hq : (rfFreq / mhz).toNat = rfFreq.toNat / 1000000 := rfl
  have hb : 2^6 * ((rfFreq / mhz).toNat + 1) ≤ 2^32 := by
    rw [hq]
    omega
  have hs : (RfSplit.loop 6 ⟨rfFreq / mhz,rfFreq % mhz,1000000⟩).split =
      Split.refine 6 ⟨rfFreq.toNat / (2^6 * 15625),rfFreq.toNat % (2^6 * 15625),2^6 * 15625⟩ :=
    RfSplit.loop_split 6 hb
  rw [digRfFreq]
  generalize RfSplit.loop 6 ⟨rfFreq / mhz,rfFreq % mhz,1000000⟩ = last at hs
  have hc : last.split.rounded = (rfFreq.toNat + 7812) / 15625 := by
    rw [hs]
    exact Split.convert 6 15625 rfFreq.toNat (by decide)
  have hu : last.split.unit = 15625 := by
    rw [hs]
    exact (Split.refine_spec 6 15625 rfl (Nat.mod_lt _ (by decide)).le).1
  have ht : 7812 < last.temp ↔ (last.split.unit - 1) / 2 < last.split.rest := by
    rw [hu]
    exact BitVec.lt_def
  rw [← hc,Split.rounded]
  by_cases h : 7812 < last.temp
  · rw [if_pos h,if_pos (ht.mp h)]
    rw [Split.rounded,if_pos (ht.mp h)] at hc
    have hw : last.split.value + 1 < 2^32 := by
      rw [hc]
      omega
    exact BitVec.toNat_add_of_lt hw
  · rw [if_neg h,if_neg (fun hn => h (ht.mpr hn))]
    rfl

/-- The bandwidth bits of register 0x0c; an unknown bandwidth keeps the default. -/
def BwMhz.mode (bw : BwMhz) : Byte := bw.bits.getD 0x15

def rfTuneTable (mode lo hi band : Byte) : List RegPair :=
  [⟨0x0f,0x00⟩,⟨0x0c,mode⟩,⟨0x0d,lo⟩,⟨0x0e,hi⟩,⟨0x1f,0x87⟩,⟨0x20,0x1f⟩,⟨0x21,0x87⟩,⟨0x22,0x1f⟩,
    ⟨0x80,band⟩,⟨0x0f,0x01⟩,⟨0,0⟩]

theorem calcRfTuneRegs_table (rfFreq : U32) (bw : BwMhz) (s : State) :
    (calcRfTuneRegs rfFreq bw s).1 =
      rfTuneTable bw.mode ((digRfFreq rfFreq).setWidth 8) ((digRfFreq rfFreq >>> 8).setWidth 8)
        (if 333000000 ≤ rfFreq then 0x41 else 0x01) := by
  by_cases hf : 333000000#32 ≤ rfFreq
  · cases bw <;> simp [calcRfTuneRegs,setBwBits,BwMhz.mode,BwMhz.bits,regPairRftune,setRegBits,
      RegPair.live,rfTuneTable,hf]
  · cases bw <;> simp [calcRfTuneRegs,setBwBits,BwMhz.mode,BwMhz.bits,regPairRftune,setRegBits,
      RegPair.live,rfTuneTable,hf]

def value (t : List RegPair) (reg : Byte) : Option Byte :=
  (t.find? fun p => p.reg == reg).map (·.val)

theorem value_rfTuneTable (mode lo hi band : Byte) :
    value (rfTuneTable mode lo hi band) 0x0d = some lo ∧
      value (rfTuneTable mode lo hi band) 0x0e = some hi ∧
      value (rfTuneTable mode lo hi band) 0x80 = some band := ⟨rfl,rfl,rfl⟩

theorem writes_rfTuneTable (mode lo hi band : Byte) :
    writes (rfTuneTable mode lo hi band) = (rfTuneTable mode lo hi band).dropLast := by
  simp [writes,rfTuneTable,RegPair.live]

theorem word_toNat {w : U32} (h : w.toNat < 2^16) :
    (be16 ((w >>> 8).setWidth 8) (w.setWidth 8)).toNat = w.toNat := by
  have hb : be16 ((w >>> 8).setWidth 8) (w.setWidth 8) = w.setWidth 16 := by
    rw [← be16_msb_lsb (w.setWidth 16),msb,lsb]
    congr 1
    · ext i hi
      simp only [BitVec.getElem_setWidth,BitVec.getLsbD_ushiftRight,BitVec.getLsbD_setWidth]
      simp [show 8 + i < 16 by omega]
    · ext i hi
      simp only [BitVec.getElem_setWidth,BitVec.getLsbD_setWidth]
      simp [show i < 16 by omega]
  rw [hb,BitVec.toNat_setWidth,Nat.mod_eq_of_lt h]

/-- The frequency word of a channel change is the nearest step, halves up; the table aborts
the tune first, starts it last and keeps its registers and its terminator. -/
theorem rf_tune_nearest (rfFreq : U32) (bw : BwMhz) (s : State)
    (h : rfFreq.toNat ≤ 1023992187) :
    let t := (calcRfTuneRegs rfFreq bw s).1
    (∃ hi lo, value t 0x0e = some hi ∧ value t 0x0d = some lo ∧
      (be16 hi lo).toNat = (rfFreq.toNat + 7812) / 15625 ∧
      rfFreq.toNat ≤ 15625 * (be16 hi lo).toNat + 7812 ∧
      15625 * (be16 hi lo).toNat ≤ rfFreq.toNat + 7812) ∧
    (∃ v, value t 0x80 = some v ∧ (v &&& 0x40 ≠ 0 ↔ 333000000 ≤ rfFreq.toNat)) ∧
    t.map (·.reg) = regPairRftune.map (·.reg) ∧ t = writes t ++ [⟨0,0⟩] ∧
    (writes t).head? = some ⟨0x0f,0x00⟩ ∧ (writes t).getLast? = some ⟨0x0f,0x01⟩ := by
  intro t
  have ht : t = _ := calcRfTuneRegs_table rfFreq bw s
  have hd := digRfFreq_toNat rfFreq
  have hw := word_toNat (w:=digRfFreq rfFreq) (by omega)
  have hb : (if 333000000 ≤ rfFreq then (0x41 : Byte) else 0x01) &&& 0x40 ≠ 0 ↔
      333000000 ≤ rfFreq.toNat := by
    have hle : 333000000 ≤ rfFreq ↔ 333000000 ≤ rfFreq.toNat := BitVec.le_def
    rw [← hle]
    by_cases hf : 333000000 ≤ rfFreq
    · simp only [hf,if_true]
      decide
    · simp only [hf,if_false]
      decide
  rw [hd] at hw
  rw [ht]
  generalize (digRfFreq rfFreq).setWidth 8 = lo at hw ⊢
  generalize (digRfFreq rfFreq >>> 8).setWidth 8 = hi at hw ⊢
  generalize (if 333000000 ≤ rfFreq then (0x41 : Byte) else 0x01) = band at hb ⊢
  obtain ⟨hlo,hhi,hband⟩ := value_rfTuneTable bw.mode lo hi band
  rw [writes_rfTuneTable]
  refine ⟨⟨hi,lo,hhi,hlo,hw,?_,?_⟩,⟨band,hband,hb⟩,rfl,rfl,rfl,rfl⟩
  · rw [hw]
    omega
  · rw [hw]
    omega

/-- 500.015625 MHz, where the bit loop stops one step low. -/
theorem rf_tune_nearest_sample :
    let t := (calcRfTuneRegs 500015625 .bw6Mhz (State.fresh
      ⟨0,.amp0_94V,.xtal16Mhz,.if4Mhz,false,false⟩)).1
    ∃ hi lo, value t 0x0e = some hi ∧ value t 0x0d = some lo ∧ (be16 hi lo).toNat = 32001 := by
  intro t
  obtain ⟨⟨hi,lo,hhi,hlo,hw,_⟩,_⟩ := rf_tune_nearest 500015625 .bw6Mhz (State.fresh
    ⟨0,.amp0_94V,.xtal16Mhz,.if4Mhz,false,false⟩) (by decide)
  exact ⟨hi,lo,hhi,hlo,hw⟩

/-- Everything that a call with these parameters has to send, if it is not rejected. -/
def sequence (cfg : Config) (c : Props) : List RegPair :=
  match c.select with
  | none => []
  | some (mode,bw) =>
    writes (calcInitRegs mode (State.fresh cfg)).1 ++
      writes (calcRfTuneRegs c.frequency bw (State.fresh cfg)).1

def State.Keeps (s s' : State) : Prop :=
  s'.config = s.config ∧ s'.frequency = s.frequency ∧ s'.bandwidth = s.bandwidth

theorem calcInitRegs_fresh (mode : Mode) (s : State) :
    (calcInitRegs mode s).1 = (calcInitRegs mode (State.fresh s.config)).1 ∧
      s.Keeps (calcInitRegs mode s).2 := by
  have hc : (State.fresh s.config).config = s.config := rfl
  simp only [calcInitRegs,hc]
  simp only [setIfFreqBits,setXtalFreqBits]
  cases s.config.ifFreqHz.bits <;> cases s.config.xtalFreqHz.bits <;> cases mode <;>
    exact ⟨rfl,rfl,rfl,rfl⟩

theorem calcRfTuneRegs_fresh (cfg : Config) (rfFreq : U32) (bw : BwMhz) (s : State) :
    (calcRfTuneRegs rfFreq bw s).1 = (calcRfTuneRegs rfFreq bw (State.fresh cfg)).1 ∧
      s.Keeps (calcRfTuneRegs rfFreq bw s).2 := by
  rw [calcRfTuneRegs_table,calcRfTuneRegs_table]
  refine ⟨rfl,?_⟩
  simp only [calcRfTuneRegs,setBwBits]
  cases bw.bits <;> exact ⟨rfl,rfl,rfl⟩

def sentOk (bus : ℕ → ℤ) (k : ℕ) : Bool := bus k == 1

variable (bus : ℕ → ℤ)

theorem writeRegs_eq (t : List RegPair) (s : Tuner) :
    let r := issue (sentOk bus) s.sent.length (writes t)
    writeRegs bus t s =
      (if r.2 then 0 else -Errno.eremoteio,{s with sent := s.sent ++ r.1}) := by
  induction t generalizing s with
  | nil => simp [writeRegs,writes,issue]
  | cons p t ih =>
    by_cases hp : p.live = true
    · have hw : writes (p::t) = p::writes t := List.takeWhile_cons_of_pos hp
      rw [hw]
      by_cases hk : bus s.sent.length = 1
      · have hi := issue_cons_ok (sentOk bus) (k:=s.sent.length) (by rw [sentOk,hk]; rfl) p
          (writes t)
        have ht := ih {s with sent := s.sent ++ [p]}
        simp only [List.length_append,List.length_singleton] at ht
        simp only [writeRegs,hp,if_true,writeReg,transferred,hk,ne_eq,not_true_eq_false,if_false,ht,
          hi,List.append_assoc,List.singleton_append]
      · have hi := issue_cons_failed (sentOk bus) (k:=s.sent.length) (by simp [sentOk,hk]) p
          (writes t)
        simp [writeRegs,hp,writeReg,transferred,hk,hi,Errno.eremoteio]
    · have hw : writes (p::t) = [] := List.takeWhile_cons_of_neg hp
      simp [writeRegs,hp,hw,issue]

theorem tunerInit_eq (mode : Mode) (s : Tuner) :
    let r := issue (sentOk bus) s.sent.length
      (writes (calcInitRegs mode (State.fresh s.state.config)).1)
    ∃ t, s.state.Keeps t ∧ tunerInit bus mode s =
      (if r.2 then 0 else -Errno.eremoteio,⟨t,s.sent ++ r.1⟩) := by
  obtain ⟨ht,hk⟩ := calcInitRegs_fresh mode s.state
  refine ⟨_,hk,?_⟩
  rw [tunerInit,writeRegs_eq,ht]

theorem tunerRfTune_eq (cfg : Config) (rfFreq : U32) (bw : BwMhz) (s : Tuner) :
    let r := issue (sentOk bus) s.sent.length
      (writes (calcRfTuneRegs rfFreq bw (State.fresh cfg)).1)
    ∃ t, s.state.Keeps t ∧ tunerRfTune bus rfFreq bw s =
      (if r.2 then 0 else -Errno.eremoteio,⟨t,s.sent ++ r.1⟩) := by
  obtain ⟨ht,hk⟩ := calcRfTuneRegs_fresh cfg rfFreq bw s.state
  refine ⟨_,hk,?_⟩
  rw [tunerRfTune,writeRegs_eq,ht]

/-- A call that is not rejected sends its sequence up to the first failure, and takes over
its parameters exactly if nothing failed. -/
theorem setParams_eq {c : Props} {s : Tuner} (h : c.select ≠ none) :
    let r := issue (sentOk bus) s.sent.length (sequence s.state.config c)
    ∃ t : State, t.config = s.state.config ∧
      (t.frequency,t.bandwidth) = (if r.2 then (c.frequency,c.bandwidthHz)
        else (s.state.frequency,s.state.bandwidth)) ∧
      setParams bus c s = (if r.2 then 0 else -Errno.eremoteio,⟨t,s.sent ++ r.1⟩) := by
  obtain ⟨⟨mode,bw⟩,hs⟩ := Option.ne_none_iff_exists'.mp h
  obtain ⟨t,⟨htc,htf,htb⟩,hi⟩ := tunerInit_eq bus mode s
  simp only [sequence,hs,issue_append]
  rw [setParams,hs]
  simp only [hi]
  by_cases hok : (issue (sentOk bus) s.sent.length
      (writes (calcInitRegs mode (State.fresh s.state.config)).1)).2 = true
  · obtain ⟨u,⟨huc,huf,hub⟩,hr⟩ := tunerRfTune_eq bus s.state.config c.frequency bw
      ⟨t,s.sent ++ writes (calcInitRegs mode (State.fresh s.state.config)).1⟩
    rw [issue_all (sentOk bus) hok]
    simp only [List.length_append] at hr
    simp only [hok,if_true,hr,mxlFail]
    by_cases hok' : (issue (sentOk bus) (s.sent.length +
        (writes (calcInitRegs mode (State.fresh s.state.config)).1).length)
        (writes (calcRfTuneRegs c.frequency bw (State.fresh s.state.config)).1)).2 = true
    · refine ⟨{u with frequency := c.frequency, bandwidth := c.bandwidthHz},huc.trans htc,?_,?_⟩
      · rw [if_pos hok']
      · simp [hok',List.append_assoc]
    · refine ⟨u,huc.trans htc,?_,?_⟩
      · rw [if_neg hok',huf,hub,htf,htb]
      · simp [hok',List.append_assoc,Errno.eremoteio]
  · refine ⟨t,htc,?_,?_⟩
    · simp [hok,htf,htb]
    · simp [hok,mxlFail,Errno.eremoteio]

theorem setParams_rejected {c : Props} (h : c.select = none) (s : Tuner) :
    setParams bus c s = (-Errno.einval,s) := by
  rw [setParams,h]

theorem sentOk_iff (k : ℕ) : sentOk bus k = true ↔ bus k = 1 := by
  rw [sentOk,beq_iff_eq]

theorem setParams_sent {c : Props} {s : Tuner} (h : c.select ≠ none) :
    let seq := sequence s.state.config c
    ∃ n ≤ seq.length, (setParams bus c s).2.sent = s.sent ++ seq.take n ∧
      (∀ i, i + 1 < n → bus (s.sent.length + i) = 1) ∧
      (n < seq.length → ∃ m, n = m + 1 ∧ bus (s.sent.length + m) ≠ 1) := by
  intro seq
  obtain ⟨t,_,_,hr⟩ := setParams_eq bus h (s:=s)
  obtain ⟨n,hle,ht,ha,hf⟩ := issue_cut (sentOk bus) s.sent.length seq
  refine ⟨n,hle,?_,fun i hi => (sentOk_iff bus _).mp (ha i hi),fun hn => ?_⟩
  · rw [hr,← ht]
  · obtain ⟨m,hm,hb⟩ := hf hn
    refine ⟨m,hm,fun h1 => ?_⟩
    rw [(sentOk_iff bus _).mpr h1] at hb
    cases hb

theorem setParams_ok_iff {c : Props} {s : Tuner} (h : c.select ≠ none) :
    (setParams bus c s).1 = 0 ↔
      ∀ i < (sequence s.state.config c).length, bus (s.sent.length + i) = 1 := by
  obtain ⟨t,_,_,hr⟩ := setParams_eq bus h (s:=s)
  have hok := issue_ok_iff (sentOk bus) s.sent.length (sequence s.state.config c)
  simp only [sentOk_iff] at hok
  rw [← hok,hr]
  split_ifs with hi
  · exact ⟨fun _ => hi,fun _ => rfl⟩
  · exact ⟨fun h0 => by simp [Errno.eremoteio] at h0,fun h1 => absurd h1 hi⟩

inductive Call
  | init
  | sleep
  | setParams (c : Props)

def Call.exec (bus : ℕ → ℤ) : Call → Tuner → ℤ × Tuner
  | .init, s => Mxl5007t.init bus s
  | .sleep, s => Mxl5007t.sleep bus s
  | .setParams c, s => Mxl5007t.setParams bus c s

def runCalls (bus : ℕ → ℤ) : List Call → Tuner → List (Call × ℤ) × Tuner
  | [], s => ([],s)
  | c::cs, s =>
    let r := c.exec bus s
    let t := runCalls bus cs r.2
    ((c,r.1)::t.1,t.2)

/-- The parameters of a `mxl5007t_set_params` that returned 0. -/
def tuned : Call × ℤ → Option Props
  | (.setParams c,ret) => if ret = 0 then some c else none
  | _ => none

/-- The frequency and bandwidth of the last call that returned 0; without one, `d`. -/
def lastTuned (d : U32 × U32) (h : List (Call × ℤ)) : U32 × U32 :=
  ((h.filterMap tuned).getLast?.map fun c => (c.frequency,c.bandwidthHz)).getD d

theorem lastTuned_append (d : U32 × U32) (h h' : List (Call × ℤ)) :
    lastTuned d (h ++ h') = lastTuned (lastTuned d h) h' := by
  simp only [lastTuned,List.filterMap_append,List.getLast?_append]
  cases (h'.filterMap tuned).getLast? with
  | none => rfl
  | some c => rfl

/-- The frequency and the bandwidth as the tuner operations report them. -/
def reported (s : Tuner) : U32 × U32 := (getFrequency s,getBandwidth s)

/-- No delivery system of the chip, or no bandwidth of DVB-T. -/
def Props.Unsupported (c : Props) : Prop :=
  (∃ n, c.deliverySystem = .other n) ∨
    (c.deliverySystem = .dvbt ∨ c.deliverySystem = .dvbt2) ∧
      c.bandwidthHz ≠ 6000000 ∧ c.bandwidthHz ≠ 7000000 ∧ c.bandwidthHz ≠ 8000000

theorem select_none_iff (c : Props) : c.select = none ↔ c.Unsupported := by
  rw [Props.select,Props.Unsupported]
  cases c.deliverySystem <;> simp <;> split_ifs <;> simp_all

/-- A step: a call keeps the configuration, and the reported parameters change only if it
is a `mxl5007t_set_params` that returns 0. -/
theorem exec_reports (c : Call) (s : Tuner) :
    let r := c.exec bus s
    r.2.state.config = s.state.config ∧ reported r.2 = lastTuned (reported s) [(c,r.1)] := by
  cases c with
  | init => exact ⟨rfl,rfl⟩
  | sleep => exact ⟨rfl,rfl⟩
  | setParams c =>
    simp only [Call.exec]
    by_cases hs : c.select = none
    · rw [setParams_rejected bus hs]
      exact ⟨rfl,rfl⟩
    · obtain ⟨t,htc,hrep,hr⟩ := setParams_eq bus hs (s:=s)
      rw [hr]
      refine ⟨htc,hrep.trans ?_⟩
      by_cases hok : (issue (sentOk bus) s.sent.length (sequence s.state.config c)).2 = true
      · simp [lastTuned,tuned,hok]
      · simp [lastTuned,tuned,hok,Errno.eremoteio,reported,getFrequency,getBandwidth]

theorem runCalls_reports (cs : List Call) (s : Tuner) :
    let r := runCalls bus cs s
    r.2.state.config = s.state.config ∧ reported r.2 = lastTuned (reported s) r.1 := by
  induction cs generalizing s with
  | nil => exact ⟨rfl,rfl⟩
  | cons c cs ih =>
    obtain ⟨hc,hr⟩ := exec_reports bus c s
    obtain ⟨hc',hr'⟩ := ih (c.exec bus s).2
    refine ⟨hc'.trans hc,hr'.trans ?_⟩
    rw [hr,← lastTuned_append]
    rfl

/-- A call after any run sends a prefix of a sequence that depends on its parameters and the
configuration only, up to the first failed write, and returns 0 exactly if all of it was
accepted; the parameters that are reported are those of the last call that returned 0. -/
theorem set_params_history_free (s₀ : Tuner) (cs : List Call) (c : Props) :
    let run := runCalls bus cs s₀
    let s := run.2
    let r := setParams bus c s
    let seq := sequence s₀.state.config c
    (∃ n ≤ seq.length, r.2.sent = s.sent ++ seq.take n ∧
      (∀ i, i + 1 < n → bus (s.sent.length + i) = 1) ∧
      (n < seq.length → ∃ m, n = m + 1 ∧ bus (s.sent.length + m) ≠ 1)) ∧
    (c.Unsupported → seq = [] ∧ r = (-Errno.einval,s)) ∧
    (¬ c.Unsupported → (r.1 = 0 ↔ ∀ i < seq.length, bus (s.sent.length + i) = 1)) ∧
    reported s = lastTuned (reported s₀) run.1 ∧
    reported r.2 = lastTuned (reported s₀) (run.1 ++ [(.setParams c,r.1)]) := by
  intro run s r seq
  obtain ⟨hc,hrep⟩ := runCalls_reports bus cs s₀
  have hstep := (exec_reports bus (.setParams c) s).2
  have hlast : reported r.2 = lastTuned (reported s₀) (run.1 ++ [(.setParams c,r.1)]) := by
    rw [lastTuned_append,← hrep]
    exact hstep
  by_cases hu : c.select = none
  · have hr : r = (-Errno.einval,s) := setParams_rejected bus hu s
    have hseq : seq = [] := by
      change sequence s₀.state.config c = []
      rw [sequence,hu]
    have hn := (select_none_iff c).mp hu
    refine ⟨⟨0,Nat.zero_le _,?_,by omega,?_⟩,fun _ => ⟨hseq,hr⟩,fun h => absurd hn h,hrep,hlast⟩
    · rw [hr,List.take_zero,List.append_nil]
    · rw [hseq]
      exact fun h => absurd h (Nat.lt_irrefl 0)
  · have hn : ¬ c.Unsupported := fun h => hu ((select_none_iff c).mpr h)
    have hsent := setParams_sent bus hu (s:=s)
    have hzero := setParams_ok_iff bus hu (s:=s)
    rw [show s.state.config = s₀.state.config from hc] at hsent hzero
    exact ⟨hsent,fun h => absurd h hn,fun _ => hzero,hrep,hlast⟩

end Mxl5007t
end AkbPcr20x
