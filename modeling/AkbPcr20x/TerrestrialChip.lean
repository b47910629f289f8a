import AkbPcr20x.Latest
import AkbPcr20x.TerrestrialTuning

/-! What the register tables of the ISDB-T tuner say to the chip. The loops over the tables
are overlays on the registers, and the registers behind a call can be read back: they hold
the configuration and the parameters. -/
namespace AkbPcr20x
namespace Mxl5007t

open Issue

abbrev Regs := Byte → Byte

def applied (ws : List RegPair) (m : Regs) : Regs :=
  ws.foldl (fun m p => Function.update m p.reg p.val) m

def RegPair.at (r : Byte) (p : RegPair) : Option Byte := if p.reg = r then some p.val else none

theorem applied_cons (p : RegPair) (ws : List RegPair) (m : Regs) :
    applied (p::ws) m = applied ws (Function.update m p.reg p.val) := rfl

theorem applied_append (ws ws' : List RegPair) (m : Regs) :
    applied (ws ++ ws') m = applied ws' (applied ws m) :=
  List.foldl_append

theorem applied_latest (ws : List RegPair) (m : Regs) (r : Byte) :
    applied ws m r = latest (RegPair.at r) ws (m r) := by
  induction ws generalizing m with
  | nil => rfl
  | cons p ws ih =>
    rw [applied_cons,ih,latest_cons]
    by_cases hp : p.reg = r
    · rw [← hp,Function.update_self,RegPair.at,if_pos rfl,Option.getD_some]
    · rw [Function.update_of_ne (Ne.symm hp),RegPair.at,if_neg hp,Option.getD_none]

def regs (t : List RegPair) : List Byte := (writes t).map (·.reg)

theorem applied_of_not_mem {ws : List RegPair} {r : Byte} (h : r ∉ ws.map (·.reg)) (m : Regs) :
    applied ws m r = m r := by
  rw [applied_latest,latest_none]
  intro p hp
  exact if_neg fun he => h (List.mem_map.mpr ⟨p,hp,he⟩)

theorem applied_of_mem {ws : List RegPair} {r : Byte} (h : r ∈ ws.map (·.reg)) (m m' : Regs) :
    applied ws m r = applied ws m' r := by
  rw [applied_latest,applied_latest]
  obtain ⟨p,hp,he⟩ := List.mem_map.mp h
  refine latest_some ⟨p,hp,?_⟩ _ _
  rw [RegPair.at,if_pos he]
  rfl

/-- Writes to other registers may be put off. -/
theorem applied_update {ws : List RegPair} {r : Byte} (h : r ∉ ws.map (·.reg)) (m : Regs) (v : Byte) :
    applied ws (Function.update m r v) = Function.update (applied ws m) r v := by
  induction ws generalizing m with
  | nil => rfl
  | cons p ws ih =>
    rw [List.map_cons,List.mem_cons,not_or] at h
    rw [applied_cons,Function.update_comm h.1,ih h.2,applied_cons]

variable {p q : RegPair} {t t₁ t₂ : List RegPair} {m : Regs} {r : Byte}

theorem writes_cons (h : p.live = true) (t : List RegPair) : writes (p::t) = p::writes t :=
  List.takeWhile_cons_of_pos h

theorem writes_end (h : ¬ p.live = true) (t : List RegPair) : writes (p::t) = [] :=
  List.takeWhile_cons_of_neg h

theorem regs_cons (h : p.live = true) (t : List RegPair) : regs (p::t) = p.reg::regs t := by
  rw [regs,writes_cons h,List.map_cons,regs]

theorem regs_end (h : ¬ p.live = true) (t : List RegPair) : regs (p::t) = [] := by
  rw [regs,writes_end h,List.map_nil]

def RegPair.setBits (reg mask val : Byte) (p : RegPair) : RegPair :=
  if p.reg = reg then {p with val := (p.val &&& ~~~mask) ||| val} else p

theorem writes_setRegBits {reg : Byte} (h : reg ≠ 0) (mask val : Byte) (t : List RegPair) :
    writes (setRegBits reg mask val t) = (writes t).map (RegPair.setBits reg mask val) := by
  induction t with
  | nil => rfl
  | cons p t ih =>
    by_cases hp : p.live = true
    · have hl : (RegPair.setBits reg mask val p).live = true := by
        rw [RegPair.setBits]
        split_ifs with he
        · rw [RegPair.live,he,bne_iff_ne.mpr h,Bool.true_or]
        · exact hp
      rw [setRegBits,if_pos hp,writes_cons hp,List.map_cons,← ih]
      exact writes_cons hl _
    · rw [setRegBits,if_neg hp,writes_end hp,List.map_nil]

@[simp] theorem regs_setRegBits {reg : Byte} (h : reg ≠ 0) (mask val : Byte) (t : List RegPair) :
    regs (setRegBits reg mask val t) = regs t := by
  rw [regs,writes_setRegBits h,List.map_map]
  refine List.map_congr_left fun p _ => ?_
  rw [Function.comp_apply,RegPair.setBits]
  split_ifs <;> rfl

theorem latest_setBits {reg : Byte} (mask val : Byte) {ws : List RegPair}
    (h : reg ∈ ws.map (·.reg)) (v w : Byte) :
    latest (RegPair.at reg) (ws.map (RegPair.setBits reg mask val)) v =
      (latest (RegPair.at reg) ws w &&& ~~~mask) ||| val := by
  induction ws generalizing v w with
  | nil => cases h
  | cons p ws ih =>
    rw [List.map_cons,latest_cons,latest_cons]
    by_cases hm : reg ∈ ws.map (·.reg)
    · exact ih hm _ _
    · have hp : p.reg = reg := by
        rw [List.map_cons,List.mem_cons] at h
        exact (h.resolve_right hm).symm
      have hn : ∀ q ∈ ws, RegPair.at reg q = none := fun q hq =>
        if_neg fun he => hm (List.mem_map.mpr ⟨q,hq,he⟩)
      have hn' : ∀ q ∈ ws.map (RegPair.setBits reg mask val), RegPair.at reg q = none := by
        intro q hq
        obtain ⟨q',hq',rfl⟩ := List.mem_map.mp hq
        have hne : q'.reg ≠ reg := fun he => hm (List.mem_map.mpr ⟨q',hq',he⟩)
        rw [RegPair.setBits,if_neg hne]
        exact hn q' hq'
      rw [latest_none hn,latest_none hn']
      simp [RegPair.setBits,RegPair.at,hp]

theorem applied_setRegBits {reg : Byte} (h : reg ≠ 0) (hr : reg ∈ regs t) (mask val : Byte)
    (m : Regs) (r : Byte) :
    applied (writes (setRegBits reg mask val t)) m r =
      if r = reg then (applied (writes t) m r &&& ~~~mask) ||| val else applied (writes t) m r := by
  rw [applied_latest,writes_setRegBits h,applied_latest]
  split_ifs with he
  · rw [he]
    exact latest_setBits mask val hr _ _
  · rw [latest,latest,List.filterMap_map]
    congr 2
    funext p
    rw [Function.comp_apply,RegPair.setBits]
    split_ifs with hp
    · rw [RegPair.at,RegPair.at,if_neg (fun hn => he (hn.symm.trans hp)),if_neg fun hn => he (hn.symm.trans hp)]
    · rfl

theorem copyRegBits_pass (hp : p.live = true) (hq : q.live = true) (hne : p.reg ≠ q.reg)
    (t₁ t₂ : List RegPair) : copyRegBits (p::t₁) (q::t₂) = q::copyRegBits (p::t₁) t₂ := by
  simp only [copyRegBits,hp,if_true,copyVal,hq,hne,ne_eq,not_false_iff,List.cons_append]

theorem copyRegBits_found (hp : p.live = true) (hq : q.live = true) (he : p.reg = q.reg)
    (t₁ t₂ : List RegPair) : copyRegBits (p::t₁) (q::t₂) = copyRegBits t₁ (p::t₂) := by
  have hpq : {q with val := p.val} = p := by rw [← he]
  simp only [copyRegBits,hp,if_true,copyVal,hq,he,ne_eq,not_true_eq_false,if_false,List.nil_append,
    hpq]

/-- The copy lays the first table over the second one if its registers stand there in the same
order: the inner loop never goes back. -/
theorem applied_copyRegBits (hs : (regs t₁).Sublist (regs t₂)) (hn : (regs t₂).Nodup) (m : Regs) :
    applied (writes (copyRegBits t₁ t₂)) m = applied (writes t₁) (applied (writes t₂) m) := by
  induction t₁ generalizing t₂ m with
  | nil => rfl
  | cons p t₁ ih =>
    by_cases hp : p.live = true
    · rw [regs_cons hp] at hs
      induction t₂ generalizing m with
      | nil => cases hs
      | cons q t₂ ih₂ =>
        by_cases hq : q.live = true
        · rw [regs_cons hq] at hs hn
          rw [writes_cons hp,writes_cons hq,applied_cons,applied_cons]
          by_cases he : p.reg = q.reg
          · have hsub : (regs t₁).Sublist (regs (p::t₂)) := by
              rw [regs_cons hp,he]
              exact (List.sublist_cons_self _ _).trans hs
            have hnd : (regs (p::t₂)).Nodup := by
              rwa [regs_cons hp,he]
            have hnot : p.reg ∉ (writes t₂).map (·.reg) := by
              rw [he]
              exact (List.nodup_cons.mp hn).1
            rw [copyRegBits_found hp hq he,ih hsub hnd,writes_cons hp,applied_cons,
              ← applied_update hnot,← he,Function.update_idem]
          · have hsub : (p.reg::regs t₁).Sublist (regs t₂) := by
              rcases List.sublist_cons_iff.mp hs with hs | ⟨l,hl,_⟩
              · exact hs
              · exact absurd (List.cons.inj hl).1 he
            rw [copyRegBits_pass hp hq he,writes_cons hq,applied_cons,
              ih₂ hsub (List.nodup_cons.mp hn).2,writes_cons hp,applied_cons]
        · rw [regs_end hq] at hs
          cases hs
    · rw [writes_end hp,copyRegBits,if_neg hp]
      rfl

structure Bits where
  reg : Byte
  mask : Byte
  val : Byte

def Bits.apply (b : Bits) (v : Byte) : Byte := (v &&& ~~~b.mask) ||| b.val

def setAll (bs : List Bits) (t : List RegPair) : List RegPair :=
  bs.foldl (fun t b => setRegBits b.reg b.mask b.val t) t

/-- Each register of the table takes the bits meant for it. -/
theorem applied_setAll {bs : List Bits} (h : ∀ b ∈ bs, b.reg ≠ 0 ∧ b.reg ∈ regs t) (m : Regs)
    (r : Byte) : applied (writes (setAll bs t)) m r =
      (bs.filter (·.reg = r)).foldl (fun v b => b.apply v) (applied (writes t) m r) := by
  induction bs generalizing t with
  | nil => rfl
  | cons b bs ih =>
    rw [List.forall_mem_cons] at h
    have hb : ∀ b' ∈ bs, b'.reg ≠ 0 ∧ b'.reg ∈ regs (setRegBits b.reg b.mask b.val t) := by
      rw [regs_setRegBits h.1.1]
      exact h.2
    refine (ih hb).trans ?_
    rw [applied_setRegBits h.1.1 h.1.2]
    by_cases hr : b.reg = r
    · rw [if_pos hr.symm,List.filter_cons_of_pos (by simpa using hr),List.foldl_cons,Bits.apply]
    · rw [if_neg (Ne.symm hr),List.filter_cons_of_neg (by simpa using hr)]

theorem regs_setAll {bs : List Bits} (h : ∀ b ∈ bs, b.reg ≠ 0) (t : List RegPair) :
    regs (setAll bs t) = regs t := by
  induction bs generalizing t with
  | nil => rfl
  | cons b bs ih =>
    rw [List.forall_mem_cons] at h
    exact (ih h.2 _).trans (regs_setRegBits h.1 _ _ _)

def modeBits : Mode → List Bits
  | .atsc => [⟨0x06,0x1f,0x12⟩]
  | .dvbt => [⟨0x06,0x1f,0x11⟩]
  | .isdbt => [⟨0x06,0x1f,0x10⟩]
  | .cable => []

def ifFreqBits (cfg : Config) : List Bits :=
  (cfg.ifFreqHz.bits.map fun v =>
    [⟨0x02,0x0f,v⟩,⟨0x02,0x10,if cfg.invertIf then 0x10 else 0x00⟩]).getD []

def xtalFreqBits (cfg : Config) : List Bits :=
  (cfg.xtalFreqHz.bits.map fun v => [⟨0x03,0xf0,v.1⟩,⟨0x05,0x0f,v.2⟩]).getD []

def initBits (cfg : Config) (mode : Mode) : List Bits :=
  modeBits mode ++ ifFreqBits cfg ++ xtalFreqBits cfg ++
    [⟨0x03,0x08,if cfg.clkOutEnable then (1 : Byte) <<< 3 else 0⟩,⟨0x03,0x07,cfg.clkOutAmp.val⟩]

def cableBits (cfg : Config) : List Bits :=
  [⟨0x09,0xff,0xc1⟩,⟨0x0a,0xff,BitVec.ofInt 8 (8 - cfg.ifDiffOutLevel)⟩,⟨0x0b,0xff,0x17⟩]

theorem calcInitRegs_eq (mode : Mode) (s : State) :
    (calcInitRegs mode s).1 = if mode = .cable then
        copyRegBits (setAll (initBits s.config mode) initTab) (setAll (cableBits s.config) initTabCable)
      else setAll (initBits s.config mode) initTab := by
  rw [calcInitRegs]
  cases hi : s.config.ifFreqHz.bits <;> cases hx : s.config.xtalFreqHz.bits <;> cases mode <;>
    simp [setModeBits,setIfFreqBits,setXtalFreqBits,hi,hx,Mode.val,initBits,modeBits,ifFreqBits,
      xtalFreqBits,cableBits,setAll]

theorem initBits_reg (cfg : Config) (mode : Mode) :
    ∀ b ∈ initBits cfg mode, b.reg ≠ 0 ∧ b.reg ∈ regs initTab := by
  have hd : ∀ r ∈ ([0x02,0x03,0x05,0x06] : List Byte), r ≠ 0 ∧ r ∈ regs initTab := by decide
  intro b hb
  refine hd b.reg ?_
  simp only [initBits,ifFreqBits,xtalFreqBits] at hb
  cases mode <;> cases hi : cfg.ifFreqHz.bits <;> cases hx : cfg.xtalFreqHz.bits <;>
    simp only [hi,hx,modeBits,Option.map_some,Option.map_none,Option.getD_some,Option.getD_none,
      List.nil_append,List.cons_append,List.mem_cons,List.not_mem_nil,or_false] at hb <;>
    rcases hb with rfl | rfl | rfl | rfl | rfl | rfl | rfl <;> simp

theorem regs_initBits (cfg : Config) (mode : Mode) :
    regs (setAll (initBits cfg mode) initTab) = regs initTab :=
  regs_setAll (fun b hb => (initBits_reg cfg mode b hb).1) _

theorem cableBits_reg (cfg : Config) :
    ∀ b ∈ cableBits cfg, b.reg ≠ 0 ∧ b.reg ∈ regs initTabCable := by
  have hd : ∀ r ∈ ([0x09,0x0a,0x0b] : List Byte), r ≠ 0 ∧ r ∈ regs initTabCable := by decide
  intro b hb
  refine hd b.reg ?_
  simp only [cableBits,List.mem_cons,List.not_mem_nil,or_false] at hb
  rcases hb with rfl | rfl | rfl <;> simp

theorem applied_init (mode : Mode) (s : State) (m : Regs) :
    applied (writes (calcInitRegs mode s).1) m =
      applied (writes (setAll (initBits s.config mode) initTab)) (if mode = .cable then
        applied (writes (setAll (cableBits s.config) initTabCable)) m else m) := by
  rw [calcInitRegs_eq]
  split_ifs with hm
  · have hc : regs (setAll (cableBits s.config) initTabCable) = regs initTabCable :=
      regs_setAll (fun b hb => (cableBits_reg s.config b hb).1) _
    refine applied_copyRegBits ?_ ?_ m
    · rw [regs_initBits,hc]
      decide
    · rw [hc]
      decide
  · rfl

theorem init_reg (mode : Mode) (s : State) (m : Regs) {r : Byte} (hr : r ∈ regs initTab) :
    applied (writes (calcInitRegs mode s).1) m r =
      ((initBits s.config mode).filter (·.reg = r)).foldl (fun v b => b.apply v)
        (applied (writes initTab) (fun _ => 0) r) := by
  rw [applied_init,applied_setAll (initBits_reg s.config mode)]
  rw [applied_of_mem hr _ fun _ => 0]

deriving instance DecidableEq for IfFreq, XtalFreq, ClkoutAmp, BwMhz

def IfFreq.listed : List IfFreq :=
  [.if4Mhz,.if4_5Mhz,.if4_57Mhz,.if5Mhz,.if5_38Mhz,.if6Mhz,.if6_28Mhz,.if9_1915Mhz,.if35_25Mhz,
    .if36_15Mhz,.if44Mhz]

def XtalFreq.listed : List XtalFreq :=
  [.xtal16Mhz,.xtal20Mhz,.xtal20_25Mhz,.xtal20_48Mhz,.xtal24Mhz,.xtal25Mhz,.xtal25_14Mhz,.xtal27Mhz,
    .xtal28_8Mhz,.xtal32Mhz,.xtal40Mhz,.xtal44Mhz,.xtal48Mhz,.xtal49_3811Mhz]

def ClkoutAmp.listed : List ClkoutAmp :=
  [.amp0_94V,.amp0_53V,.amp0_37V,.amp0_28V,.amp0_23V,.amp0_20V,.amp0_17V,.amp0_15V]

def BwMhz.listed : List BwMhz := [.bw6Mhz,.bw7Mhz,.bw8Mhz]

structure Config.Listed (cfg : Config) : Prop where
  ifFreq : cfg.ifFreqHz ∈ IfFreq.listed
  xtalFreq : cfg.xtalFreqHz ∈ XtalFreq.listed
  clkOutAmp : cfg.clkOutAmp ∈ ClkoutAmp.listed

/-- What the registers of the chip say. -/
structure Settings where
  ifFreq : Option IfFreq
  invertIf : Bool
  xtalFreq : Option XtalFreq
  clkOutEnable : Bool
  clkOutAmp : Option ClkoutAmp
  mode : Byte
  bw : Option BwMhz
  frequency : ℕ
  highBand : Bool
  enabled : Bool
  tuning : Bool

def Settings.of (m : Regs) : Settings where
  ifFreq := IfFreq.listed.find? fun f => f.bits == some (m 0x02 &&& 0x0f)
  invertIf := m 0x02 &&& 0x10 != 0
  xtalFreq := XtalFreq.listed.find? fun f => f.bits == some (m 0x03 &&& 0xf0,m 0x05 &&& 0x0f)
  clkOutEnable := m 0x03 &&& 0x08 != 0
  clkOutAmp := ClkoutAmp.listed.find? fun a => a.val == m 0x03 &&& 0x07
  mode := m 0x06 &&& 0x1f
  bw := BwMhz.listed.find? fun b => b.bits == some (m 0x0c &&& 0x3f)
  frequency := 15625 * (be16 (m 0x0e) (m 0x0d)).toNat
  highBand := m 0x80 &&& 0x40 != 0
  enabled := m 0x01 == 1
  tuning := m 0x0f == 1

/-- The mode bits; cable works on the bits of ISDB-T and registers of its own. -/
def Mode.bits : Mode → Byte
  | .atsc => 0x12
  | .dvbt => 0x11
  | .isdbt => 0x10
  | .cable => 0x10

variable {cfg : Config} {s : State}

theorem initTab_defaults :
    ∀ p ∈ ([(0x02,0x06),(0x03,0x48),(0x05,0x04),(0x06,0x10),(0x01,0x01)] : List (Byte × Byte)),
      p.1 ∈ regs initTab ∧ applied (writes initTab) (fun _ => 0) p.1 = p.2 := by
  simp only [List.forall_mem_cons]
  refine ⟨?_,?_,?_,?_,?_,List.forall_mem_nil _⟩ <;> decide

theorem ifFreq_read : ∀ f ∈ IfFreq.listed, ∀ i : Bool, ∃ v, f.bits = some v ∧
    let w : Byte := Bits.apply ⟨0x02,0x10,if i then 0x10 else 0x00⟩ (Bits.apply ⟨0x02,0x0f,v⟩ 0x06)
    IfFreq.listed.find? (fun f => f.bits == some (w &&& 0x0f)) = some f ∧
      (w &&& 0x10 != 0) = i := by
  intro f hf i
  fin_cases hf <;> cases i <;> exact ⟨_,rfl,by decide,by decide⟩

theorem xtal_read : ∀ f ∈ XtalFreq.listed, ∃ v, f.bits = some v ∧
    ∀ c : Bool, ∀ a ∈ ClkoutAmp.listed,
      let w : Byte := Bits.apply ⟨0x03,0x07,a.val⟩ (Bits.apply
        ⟨0x03,0x08,if c then (1 : Byte) <<< 3 else 0⟩ (Bits.apply ⟨0x03,0xf0,v.1⟩ 0x48))
      XtalFreq.listed.find? (fun f => f.bits ==
          some (w &&& 0xf0,Bits.apply ⟨0x05,0x0f,v.2⟩ 0x04 &&& 0x0f)) = some f ∧
        (w &&& 0x08 != 0) = c ∧ ClkoutAmp.listed.find? (fun a => a.val == w &&& 0x07) = some a := by
  intro f hf
  fin_cases hf <;> exact ⟨_,rfl,by decide⟩

theorem init_regs (hc : s.config.Listed) (mode : Mode) (m : Regs) :
    ∃ v w, s.config.ifFreqHz.bits = some v ∧ s.config.xtalFreqHz.bits = some w ∧
      let m' := applied (writes (calcInitRegs mode s).1) m
      m' 0x02 = Bits.apply ⟨0x02,0x10,if s.config.invertIf then 0x10 else 0x00⟩
        (Bits.apply ⟨0x02,0x0f,v⟩ 0x06) ∧
      m' 0x03 = Bits.apply ⟨0x03,0x07,s.config.clkOutAmp.val⟩ (Bits.apply
        ⟨0x03,0x08,if s.config.clkOutEnable then (1 : Byte) <<< 3 else 0⟩
        (Bits.apply ⟨0x03,0xf0,w.1⟩ 0x48)) ∧
      m' 0x05 = Bits.apply ⟨0x05,0x0f,w.2⟩ 0x04 ∧ m' 0x06 &&& 0x1f = mode.bits ∧ m' 0x01 = 1 := by
  obtain ⟨v,hv,_⟩ := ifFreq_read _ hc.ifFreq s.config.invertIf
  obtain ⟨w,hw,_⟩ := xtal_read _ hc.xtalFreq
  have hd := initTab_defaults
  simp only [List.forall_mem_cons] at hd
  obtain ⟨⟨h2,d2⟩,⟨h3,d3⟩,⟨h5,d5⟩,⟨h6,d6⟩,⟨h1,d1⟩,_⟩ := hd
  refine ⟨v,w,hv,hw,?_⟩
  simp only [init_reg mode s m h2,init_reg mode s m h3,init_reg mode s m h5,init_reg mode s m h6,
    init_reg mode s m h1,d2,d3,d5,d6,d1,initBits,ifFreqBits,xtalFreqBits,hv,hw]
  cases mode <;> simp [modeBits,Mode.bits,Bits.apply]

theorem rfTune_regs (mode lo hi band : Byte) (m : Regs) :
    let m' := applied (writes (rfTuneTable mode lo hi band)) m
    m' 0x0c = mode ∧ m' 0x0d = lo ∧ m' 0x0e = hi ∧ m' 0x80 = band ∧ m' 0x0f = 1 ∧
      ∀ r ∈ regs initTabCable, m' r = m r := by
  rw [writes_rfTuneTable]
  refine ⟨?_,?_,?_,?_,?_,fun r hr => ?_⟩
  · simp [applied,rfTuneTable]
  · simp [applied,rfTuneTable]
  · simp [applied,rfTuneTable]
  · simp [applied,rfTuneTable]
  · simp [applied,rfTuneTable]
  · have hd : ∀ r ∈ regs initTabCable,
        r ∉ ([0x0f,0x0c,0x0d,0x0e,0x1f,0x20,0x21,0x22,0x80,0x0f] : List Byte) := by decide
    have hn : r ∉ (rfTuneTable mode lo hi band).dropLast.map (·.reg) := hd r hr
    exact applied_of_not_mem hn m

theorem initTab_cable : ∀ r ∈ regs initTab, r ∈ regs initTabCable := by decide

theorem cable_regs (s : State) (m : Regs) :
    let m' := applied (writes (calcInitRegs .cable s).1) m
    m' 0x09 = 0xc1 ∧ m' 0x0a = BitVec.ofInt 8 (8 - s.config.ifDiffOutLevel) ∧ m' 0x0b = 0x17 := by
  have hn : ∀ r ∈ ([0x09,0x0a,0x0b] : List Byte), r ∉ regs initTab := by decide
  simp only [List.forall_mem_cons] at hn
  obtain ⟨h9,ha,hb,_⟩ := hn
  rw [← regs_initBits s.config .cable] at h9 ha hb
  rw [applied_init]
  simp only [if_true]
  rw [applied_of_not_mem h9,applied_of_not_mem ha,applied_of_not_mem hb,
    applied_setAll (cableBits_reg s.config),applied_setAll (cableBits_reg s.config),
    applied_setAll (cableBits_reg s.config)]
  simp [cableBits,Bits.apply]

theorem select_bw {c : Props} {mode : Mode} {bw : BwMhz} (hs : c.select = some (mode,bw)) :
    bw ∈ BwMhz.listed := by
  rw [Props.select] at hs
  split at hs
  case h_3 | h_4 => split_ifs at hs <;> cases hs <;> decide
  all_goals cases hs <;> decide

theorem bw_read : ∀ b ∈ BwMhz.listed,
    BwMhz.listed.find? (fun f => f.bits == some (b.mode &&& 0x3f)) = some b := by
  decide

theorem applied_sequence {c : Props} {mode : Mode} {bw : BwMhz} (hs : c.select = some (mode,bw))
    (m : Regs) : applied (sequence cfg c) m =
      applied (writes (rfTuneTable bw.mode ((digRfFreq c.frequency).setWidth 8)
        ((digRfFreq c.frequency >>> 8).setWidth 8)
        (if 333000000 ≤ c.frequency then 0x41 else 0x01)))
        (applied (writes (calcInitRegs mode (State.fresh cfg)).1) m) := by
  rw [sequence,hs]
  simp only
  rw [applied_append,calcRfTuneRegs_table]

/-- Everything that the registers say behind the writes of a call, whatever was in them. -/
theorem settings_of_sequence (hc : cfg.Listed) {c : Props} {mode : Mode} {bw : BwMhz}
    (hs : c.select = some (mode,bw)) (hf : c.frequency.toNat ≤ 1023992187) (m : Regs) :
    Settings.of (applied (sequence cfg c) m) =
      { ifFreq := some cfg.ifFreqHz
        invertIf := cfg.invertIf
        xtalFreq := some cfg.xtalFreqHz
        clkOutEnable := cfg.clkOutEnable
        clkOutAmp := some cfg.clkOutAmp
        mode := mode.bits
        bw := some bw
        frequency := 15625 * ((c.frequency.toNat + 7812) / 15625)
        highBand := decide (333000000 ≤ c.frequency.toNat)
        enabled := true
        tuning := true } := by
  have hd := digRfFreq_toNat c.frequency
  have hw := word_toNat (w:=digRfFreq c.frequency) (by omega)
  rw [applied_sequence hs]
  generalize digRfFreq c.frequency = dig at hd hw
  generalize hm₁ : applied (writes (calcInitRegs mode (State.fresh cfg)).1) m = m₁
  obtain ⟨hc0,hd0,he0,h80,hf0,hkeep⟩ := rfTune_regs bw.mode (dig.setWidth 8)
    ((dig >>> 8).setWidth 8) (if 333000000 ≤ c.frequency then 0x41 else 0x01) m₁
  have hin : ∀ r ∈ ([0x01,0x02,0x03,0x05,0x06] : List Byte), r ∈ regs initTabCable := by decide
  simp only [List.forall_mem_cons] at hin
  obtain ⟨h1,h2,h3,h5,h6,_⟩ := hin
  obtain ⟨v,w,hv,hx,e2,e3,e5,e6,e1⟩ := init_regs (s:=State.fresh cfg) hc mode m
  rw [hm₁] at e2 e3 e5 e6 e1
  obtain ⟨v',hv',hif,hinv⟩ := ifFreq_read _ hc.ifFreq cfg.invertIf
  obtain ⟨w',hx',hxt⟩ := xtal_read _ hc.xtalFreq
  obtain ⟨hxf,hclk,hamp⟩ := hxt cfg.clkOutEnable cfg.clkOutAmp hc.clkOutAmp
  obtain rfl := Option.some.inj (hv.symm.trans hv')
  obtain rfl := Option.some.inj (hx.symm.trans hx')
  have hband : ((if 333000000 ≤ c.frequency then (0x41 : Byte) else 0x01) &&& 0x40 != 0) =
      decide (333000000 ≤ c.frequency.toNat) := by
    have hle : 333000000 ≤ c.frequency ↔ 333000000 ≤ c.frequency.toNat := BitVec.le_def
    by_cases hb : 333000000 ≤ c.frequency
    · rw [if_pos hb,decide_eq_true (hle.mp hb)]
      rfl
    · rw [if_neg hb,decide_eq_false fun hn => hb (hle.mpr hn)]
      rfl
  rw [Settings.of,hkeep _ h1,hkeep _ h2,hkeep _ h3,hkeep _ h5,hkeep _ h6,hc0,hd0,he0,h80,hf0,e2,e3,e5,
    e6,e1,Settings.mk.injEq]
  refine ⟨hif,hinv,hxf,hclk,hamp,rfl,bw_read bw (select_bw hs),?_,hband,rfl,rfl⟩
  rw [hw,hd]

theorem sequence_keeps {c : Props} {mode : Mode} {bw : BwMhz} (hs : c.select = some (mode,bw))
    (m : Regs) {r : Byte} (hi : r ∉ regs (if mode = .cable then initTabCable else initTab))
    (hr : r ∉ regs regPairRftune) : applied (sequence cfg c) m r = m r := by
  have hcfg : (State.fresh cfg).config = cfg := rfl
  have hrf : ∀ mode lo hi band : Byte, (writes (rfTuneTable mode lo hi band)).map (·.reg) =
      regs regPairRftune := by
    intro mode lo hi band
    rw [writes_rfTuneTable]
    rfl
  have hn : r ∉ regs (setAll (initBits cfg mode) initTab) := by
    rw [regs_initBits]
    split_ifs at hi with hm
    · exact fun h => hi (initTab_cable r h)
    · exact hi
  rw [applied_sequence hs,applied_of_not_mem (by rwa [hrf]),applied_init,hcfg,applied_of_not_mem hn]
  split_ifs at hi ⊢ with hm
  · refine applied_of_not_mem ?_ m
    have hc : regs (setAll (cableBits cfg) initTabCable) = regs initTabCable :=
      regs_setAll (fun b hb => (cableBits_reg cfg b hb).1) _
    rwa [← hc] at hi
  · rfl

/-- The switch of `mxl5007t_get_if_frequency`. -/
def IfFreq.hz : IfFreq → U32
  | .if4Mhz => 4000000
  | .if4_5Mhz => 4500000
  | .if4_57Mhz => 4570000
  | .if5Mhz => 5000000
  | .if5_38Mhz => 5380000
  | .if6Mhz => 6000000
  | .if6_28Mhz => 6280000
  | .if9_1915Mhz => 9191500
  | .if35_25Mhz => 35250000
  | .if36_15Mhz => 36150000
  | .if44Mhz => 44000000
  | .other _ => 0

def getIfFrequency (s : Tuner) : U32 := s.state.ifFreq.hz

variable (bus : ℕ → ℤ)

theorem writeRegs_state (t : List RegPair) (s : Tuner) : (writeRegs bus t s).2.state = s.state := by
  rw [writeRegs_eq]

theorem calcInitRegs_ifFreq (hc : s.config.Listed) (mode : Mode) :
    (calcInitRegs mode s).2.ifFreq = s.config.ifFreqHz := by
  obtain ⟨v,hv,_⟩ := ifFreq_read _ hc.ifFreq true
  rw [calcInitRegs]
  cases hx : s.config.xtalFreqHz.bits <;> cases mode <;>
    simp [setModeBits,setIfFreqBits,setXtalFreqBits,hv,hx,Mode.val]

theorem calcRfTuneRegs_ifFreq (rfFreq : U32) (bw : BwMhz) (s : State) :
    (calcRfTuneRegs rfFreq bw s).2.ifFreq = s.ifFreq := by
  rw [calcRfTuneRegs]
  cases hb : bw.bits <;> simp [setBwBits,hb]

/-- A call that is not rejected takes the configured frequency over, whatever the bus does. -/
theorem setParams_ifFreq {c : Props} {s : Tuner} (hc : s.state.config.Listed)
    (hs : c.select ≠ none) : (setParams bus c s).2.state.ifFreq = s.state.config.ifFreqHz := by
  obtain ⟨⟨mode,bw⟩,hsel⟩ := Option.ne_none_iff_exists'.mp hs
  have hi : (tunerInit bus mode s).2.state.ifFreq = s.state.config.ifFreqHz := by
    rw [tunerInit,writeRegs_state]
    exact calcInitRegs_ifFreq hc mode
  have ht (s : Tuner) : (tunerRfTune bus c.frequency bw s).2.state.ifFreq = s.state.ifFreq := by
    rw [tunerRfTune,writeRegs_state]
    exact calcRfTuneRegs_ifFreq c.frequency bw s.state
  rw [setParams,hsel]
  simp only
  split_ifs
  · exact hi
  · exact (ht _).trans hi
  · exact (ht _).trans hi

theorem setParams_sent_all {c : Props} {s : Tuner} (h0 : (setParams bus c s).1 = 0) :
    c.select ≠ none ∧ (setParams bus c s).2.sent = s.sent ++ sequence s.state.config c := by
  have hs : c.select ≠ none := by
    intro hn
    rw [setParams_rejected bus hn] at h0
    simp [Errno.einval] at h0
  obtain ⟨t,_,_,hr⟩ := setParams_eq bus hs (s:=s)
  refine ⟨hs,?_⟩
  rw [hr] at h0 ⊢
  by_cases hok : (issue (sentOk bus) s.sent.length (sequence s.state.config c)).2 = true
  · rw [issue_all (sentOk bus) hok]
  · rw [if_neg hok] at h0
    simp [Errno.eremoteio] at h0

/-- Behind any run of calls, with any failures, a `mxl5007t_set_params` that returns 0 sets the
chip up: whatever its registers held, they now say what the configuration and the parameters
ask for, the frequency to the nearest step. The driver reports the intermediate frequency
that the chip has, and registers of neither table are left alone. -/
theorem chip_set_up (s₀ : Tuner) (hc : s₀.state.config.Listed) (cs : List Call) (c : Props)
    (hf : c.frequency.toNat ≤ 1023992187) (m : Regs) :
    let cfg := s₀.state.config
    let s := (runCalls bus cs s₀).2
    let r := setParams bus c s
    let m' := applied (r.2.sent.drop s.sent.length) m
    r.1 = 0 → ∃ mode bw, c.select = some (mode,bw) ∧
      Settings.of m' =
        { ifFreq := some cfg.ifFreqHz
          invertIf := cfg.invertIf
          xtalFreq := some cfg.xtalFreqHz
          clkOutEnable := cfg.clkOutEnable
          clkOutAmp := some cfg.clkOutAmp
          mode := mode.bits
          bw := some bw
          frequency := 15625 * ((c.frequency.toNat + 7812) / 15625)
          highBand := decide (333000000 ≤ c.frequency.toNat)
          enabled := true
          tuning := true } ∧
      (mode = .cable → m' 0x09 = 0xc1 ∧ m' 0x0a = BitVec.ofInt 8 (8 - cfg.ifDiffOutLevel) ∧
        m' 0x0b = 0x17) ∧
      (∀ r, r ∉ regs (if mode = .cable then initTabCable else initTab) → r ∉ regs regPairRftune →
        m' r = m r) ∧
      (Settings.of m').ifFreq.map IfFreq.hz = some (getIfFrequency r.2) ∧
      reported r.2 = (c.frequency,c.bandwidthHz) := by
  intro cfg s r m' h0
  have hcfg : s.state.config = cfg := (runCalls_reports bus cs s₀).1
  obtain ⟨hsel,hsent⟩ := setParams_sent_all bus h0
  obtain ⟨⟨mode,bw⟩,hs⟩ := Option.ne_none_iff_exists'.mp hsel
  have hm : m' = applied (sequence cfg c) m := by
    change applied ((setParams bus c s).2.sent.drop s.sent.length) m = _
    rw [hsent,List.drop_left,hcfg]
  have hset := settings_of_sequence hc hs hf m
  rw [← hm] at hset
  refine ⟨mode,bw,hs,hset,?_,fun r hi hr => ?_,?_,?_⟩
  · rintro rfl
    have hin : ∀ r ∈ ([0x09,0x0a,0x0b] : List Byte), r ∈ regs initTabCable := by decide
    simp only [List.forall_mem_cons] at hin
    obtain ⟨i9,ia,ib,_⟩ := hin
    have hkeep := fun mode lo hi band m => (rfTune_regs mode lo hi band m).2.2.2.2.2
    rw [hm,applied_sequence hs,hkeep _ _ _ _ _ _ i9,hkeep _ _ _ _ _ _ ia,hkeep _ _ _ _ _ _ ib]
    exact cable_regs (State.fresh cfg) m
  · rw [hm]
    exact sequence_keeps hs m hi hr
  · rw [hset]
    have hif := setParams_ifFreq bus (s:=s) (hcfg ▸ hc) hsel
    rw [hcfg] at hif
    rw [getIfFrequency,hif]
    rfl
  · have hrep := (exec_reports bus (.setParams c) s).2
    have h0' : ((Call.setParams c).exec bus s).1 = 0 := h0
    rw [lastTuned,List.filterMap_cons,h0',tuned,if_pos rfl] at hrep
    exact hrep

/-- Cable reception first, then DVB-T with 7 MHz, on a bus that takes everything. -/
theorem chip_set_up_sample : ∃ m : Regs, (Settings.of m).ifFreq = some .if4Mhz ∧
    (Settings.of m).frequency = 15625 * ((500015625 + 7812) / 15625) := by
  obtain ⟨_,_,_,hs,_⟩ := chip_set_up (fun _ => 1)
    ⟨State.fresh ⟨0,.amp0_37V,.xtal24Mhz,.if4Mhz,true,true⟩,[]⟩ ⟨by decide,by decide,by decide⟩
    [.setParams ⟨.dvbcAnnexB,300000000,0⟩] ⟨.dvbt,500015625,7000000⟩ (by decide) (fun _ => 0)
    (by decide +kernel)
  exact ⟨_,congrArg Settings.ifFreq hs,congrArg Settings.frequency hs⟩

end Mxl5007t
end AkbPcr20x
