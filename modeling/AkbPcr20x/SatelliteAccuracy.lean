import AkbPcr20x.SatelliteTuning

/-! What an ISDB-S tune without I2C errors tunes to: the setters and the getters agree in
every band, whatever the driver and the chip held before. -/
namespace AkbPcr20x
namespace Stv6110x

open Memory

theorem rDivOpt_tunerS : rDivOpt Config.tunerS 40 = 1 ∧ rDivOpt Config.tunerS 20 = 2 := by
  decide +kernel

/-- `DIV4SEL` and the reference divider together always divide by four. -/
theorem band_cases (frequency : U32) :
    let b := band frequency
    b.1.toNat ≤ 1 ∧ b.2.1.toNat ≤ 1 ∧
      (b.1 = 1 ∧ b.2.2 = 40 ∧ rDivOpt Config.tunerS b.2.2 = 1 ∨
        b.1 = 0 ∧ b.2.2 = 20 ∧ rDivOpt Config.tunerS b.2.2 = 2) := by
  simp only [band]
  split_ifs
  · exact ⟨by decide,by decide,Or.inl ⟨rfl,rfl,rDivOpt_tunerS.1⟩⟩
  · exact ⟨by decide,by decide,Or.inl ⟨rfl,rfl,rDivOpt_tunerS.1⟩⟩
  · exact ⟨by decide,by decide,Or.inr ⟨rfl,rfl,rDivOpt_tunerS.2⟩⟩
  · exact ⟨by decide,by decide,Or.inr ⟨rfl,rfl,rDivOpt_tunerS.2⟩⟩

theorem band_factor (frequency : U32) :
    let pVal := (band frequency).2.2
    rDivVal (rDivOpt Config.tunerS pVal) * BitVec.ofInt 32 pVal = 160 ∧
      (rDivVal (rDivOpt Config.tunerS pVal)).toNat * pVal.toNat = 160 := by
  obtain ⟨_,_,⟨_,hp,_⟩ | ⟨_,hp,_⟩⟩ := band_cases frequency
  · simp only [hp,rDivOpt_tunerS.1]
    decide
  · simp only [hp,rDivOpt_tunerS.2]
    decide

theorem divider_toNat {frequency : U32} (h : frequency.toNat ≤ 2150000) :
    (divider Config.tunerS frequency).toNat = (frequency.toNat + 500) / 1000 := by
  have hf := (band_factor frequency).1
  have hk : (Config.tunerS.refclockKhz).toNat = 16000 := by decide
  have hm : (frequency * 160).toNat = frequency.toNat * 160 := by
    rw [BitVec.toNat_mul]
    change frequency.toNat * 160 % 2^32 = _
    omega
  rw [divider]
  simp only [BitVec.mul_assoc,hf]
  rw [BitVec.toNat_udiv,BitVec.toNat_add,BitVec.toNat_udiv,hm,hk]
  change (frequency.toNat * 160 / 16000 + 5) % 2^32 / 10 = _
  omega

theorem cutOff_toNat (bandwidth : U32) :
    (cutOff bandwidth).toNat + 5 = max 5 (min 36 (bandwidth.toNat / 2000000)) := by
  have hh : (bandwidth >>> 1).toNat = bandwidth.toNat / 2 := by
    rw [BitVec.toNat_ushiftRight,Nat.shiftRight_eq_div_pow]
  have h36 : (36000000 : U32) < bandwidth >>> 1 ↔ 36000000 < bandwidth.toNat / 2 := by
    rw [BitVec.lt_def,hh]
    rfl
  have h5 : bandwidth >>> 1 < (5000000 : U32) ↔ bandwidth.toNat / 2 < 5000000 := by
    rw [BitVec.lt_def,hh]
    rfl
  simp only [cutOff,h36,h5]
  by_cases hc : 36000000 < bandwidth.toNat / 2
  · rw [if_pos hc]
    change 31 + 5 = _
    omega
  · rw [if_neg hc]
    by_cases hl : bandwidth.toNat / 2 < 5000000
    · rw [if_pos hl]
      change 0 + 5 = _
      omega
    · rw [if_neg hl]
      have hd : (bandwidth >>> 1 / 1000000).toNat = bandwidth.toNat / 2 / 1000000 := by
        rw [BitVec.toNat_udiv,hh]
        rfl
      have hs : (bandwidth >>> 1 / 1000000 - 5).toNat = bandwidth.toNat / 2 / 1000000 - 5 := by
        rw [BitVec.toNat_sub_of_le,hd]
        · rfl
        · rw [BitVec.le_def,hd]
          change 5 ≤ _
          omega
      rw [hs]
      omega

theorem lowByte_toNat (d : U32) : (d &&& 0xff).toNat = d.toNat % 2^8 := by
  have hm : (0xff : U32).toNat = 2^8 - 1 := rfl
  rw [BitVec.toNat_and,hm,Nat.and_two_pow_sub_one_eq_mod]

/-- The high byte of the divider has four bits, and its mask takes nothing away. -/
theorem divider_high {frequency : U32} (h : frequency.toNat ≤ 2150000) :
    (divider Config.tunerS frequency >>> 8).toNat < 2^4 ∧
      divider Config.tunerS frequency >>> 8 &&& (0xff : U32) =
        divider Config.tunerS frequency >>> 8 := by
  have hs : (divider Config.tunerS frequency >>> 8).toNat < 2^4 := by
    rw [BitVec.toNat_ushiftRight,Nat.shiftRight_eq_div_pow,divider_toNat h]
    omega
  refine ⟨hs,BitVec.eq_of_toNat_eq ?_⟩
  rw [lowByte_toNat]
  exact Nat.mod_eq_of_lt (hs.trans (by decide))

theorem frequency_fit {frequency : U32} (h : frequency.toNat ≤ 2150000) :
    Fit (frequencyFields Config.tunerS frequency) := by
  obtain ⟨h₁,h₂,h₃⟩ := band_cases frequency
  have hr : (BitVec.ofNat 32 (rDivOpt Config.tunerS (band frequency).2.2)).toNat < 2^2 := by
    rcases h₃ with ⟨_,_,hr⟩ | ⟨_,_,hr⟩
    · rw [hr]
      decide
    · rw [hr]
      decide
  have hhi : (divider Config.tunerS frequency >>> 8 &&& 0xff).toNat < 2^4 := by
    rw [(divider_high h).2]
    exact (divider_high h).1
  have hlo : (divider Config.tunerS frequency &&& 0xff).toNat < 2^8 := by
    rw [lowByte_toNat]
    exact Nat.mod_lt _ (by decide)
  have hk : (Config.tunerS.refclockMhz - 16).toNat < 2^5 := by decide
  intro a ha
  simp only [frequencyFields,List.mem_cons,List.not_mem_nil,or_false] at ha
  rcases ha with rfl | rfl | rfl | rfl | rfl | rfl | rfl
  · exact hk
  · exact Nat.lt_succ_of_le h₁
  · exact Nat.lt_succ_of_le h₂
  · exact hr
  · exact hhi
  · exact hlo
  · exact (by decide : (1 : U32).toNat < 2^1)

theorem bandwidth_fit (bandwidth : U32) : Fit (bandwidthFields bandwidth) := by
  have hc := cutOff_toNat bandwidth
  intro a ha
  simp only [bandwidthFields,List.mem_cons,List.not_mem_nil,or_false] at ha
  rcases ha with rfl | rfl | rfl
  · change (cutOff bandwidth).toNat < 2^5
    omega
  · exact (by decide : (0 : U32).toNat < 2^1)
  · exact (by decide : (1 : U32).toNat < 2^1)

/-- What a tune leaves in the control and tuning registers. -/
structure Tuned (frequency bandwidth : U32) (regs : Mem Byte) : Prop where
  awake : ctrl1Syn.get regs = 1 ∧ ctrl1Rx.get regs = 1 ∧ ctrl1Lpt.get regs = 1
  div4sel : tng1Div4sel.get regs = (band frequency).1
  rDiv : tng1RDiv.get regs = BitVec.ofNat 32 (rDivOpt Config.tunerS (band frequency).2.2)
  nDivHigh : tng1NDiv.get regs = divider Config.tunerS frequency >>> 8 &&& 0xff
  nDivLow : tng0NDiv.get regs = divider Config.tunerS frequency &&& 0xff
  cf : ctrl3Cf.get regs = cutOff bandwidth
  rcclkOff : ctrl3RcclkOff.get regs = 1

variable {bus : Bus} {s : Tuner}

theorem setup_tunerS (s : Tuner) : setup Config.tunerS s = (initRegs s).setField ctrl2CoDiv 0 := by
  rw [setup,setupDivider,if_neg (by decide),if_neg (by decide),if_neg (by decide)]

theorem setup_regs (s : Tuner) {reg : ℕ} (h : reg < 8) :
    (setup Config.tunerS s).regs reg = defaultRegs.getD reg 0 := by
  have hi : (initRegs s).regs reg = defaultRegs.getD reg 0 := by
    simp only [initRegs,defaultRegs,store_cons,store_nil]
    interval_cases reg <;> rfl
  rw [setup_tunerS]
  by_cases he : reg = ctrl2
  · subst he
    have hp : ctrl2CoDiv.bits.put (0 : U32) 0x11 = 0x11 := by decide
    exact (setField_regs_self ctrl2CoDiv 0 _).trans ((congrArg _ hi).trans hp)
  · rw [setField_regs_of_ne he,hi]

theorem init_regs (s : Tuner) : (init bus s).2.regs = s.regs := by
  rw [init_eq]
  split <;> rfl

theorem setFrequency_regs (frequency : U32) (s : Tuner) {reg : ℕ} (h : reg ≠ stat1) :
    (setFrequency Config.tunerS bus frequency s).2.regs reg =
      (s.setFields (frequencyFields Config.tunerS frequency)).regs reg := by
  simp only [setFrequency]
  rw [waitStat1_regs bus _ _ _ h]
  simp only [writeReg_regs]

theorem setBandwidth_regs (bus : Bus) (bandwidth : U32) (s : Tuner) :
    ∃ t : Tuner, (setBandwidth bus bandwidth s).2.regs = (t.setField ctrl3RcclkOff 1).regs ∧
      ∀ reg ≠ stat1, t.regs reg = (s.setFields (bandwidthFields bandwidth)).regs reg := by
  refine ⟨_,writeReg_regs bus _ _ _,fun reg h => ?_⟩
  rw [waitStat1_regs bus _ _ _ h]
  simp only [writeReg_regs]

theorem frequencyFields_map (frequency : U32) :
    (frequencyFields Config.tunerS frequency).map (·.1) =
      [ctrl1K,tng1Div4sel,tng1Presc32On,tng1RDiv,tng1NDiv,tng0NDiv,stat1CalvcoStrt] := rfl

theorem bandwidthFields_map (bandwidth : U32) :
    (bandwidthFields bandwidth).map (·.1) = [ctrl3Cf,ctrl3RcclkOff,stat1CalrcStrt] := rfl

theorem setParams_regs_tuned {frequency : U32} (hf : frequency.toNat ≤ 2150000) (bandwidth : U32)
    (h : bus.write s.sent.length = 1) :
    Tuned frequency bandwidth (setParams Config.tunerS bus frequency bandwidth s).2.regs := by
  rw [setParams_ok Config.tunerS frequency bandwidth h]
  obtain ⟨s₁,hs₁⟩ : ∃ t, t = (init bus (setup Config.tunerS s)).2 := ⟨_,rfl⟩
  obtain ⟨s₂,hs₂⟩ : ∃ t, t = (setFrequency Config.tunerS bus frequency s₁).2 := ⟨_,rfl⟩
  rw [← hs₁,← hs₂]
  obtain ⟨t,ht,hk⟩ := setBandwidth_regs bus bandwidth s₂
  have hfit := frequency_fit hf
  have hbfit := bandwidth_fit bandwidth
  have hone : ctrl3RcclkOff.bits.Holds (1 : U32) := by
    rw [BitField.Holds]
    decide
  have hfirst (reg : ℕ) (hr : reg < 8) : s₁.regs reg = defaultRegs.getD reg 0 := by
    rw [hs₁,init_regs,setup_regs s hr]
  have hset := get_setFields hfit (by rw [frequencyFields_map]; decide) s₁
  have hbset := get_setFields hbfit (by rw [bandwidthFields_map]; decide) s₂
  simp only [frequencyFields,List.forall_mem_cons] at hset
  simp only [bandwidthFields,List.forall_mem_cons] at hbset
  obtain ⟨_,hdiv4,_,hrdiv,hhigh,hlow,_⟩ := hset
  have hkeep (g : Field) (hg : g.reg ≠ stat1)
      (ha : ∀ f ∈ [ctrl3Cf,ctrl3RcclkOff,stat1CalrcStrt], f.Apart g) :
      g.get (setBandwidth bus bandwidth s₂).2.regs =
        g.get (s₁.setFields (frequencyFields Config.tunerS frequency)).regs := by
    rw [ht,get_setField_of_apart (ha _ (by simp)) hone,Field.get_congr (hk _ hg),
      get_setFields_of_apart hbfit (by rw [bandwidthFields_map]; exact ha)]
    exact Field.get_congr (by rw [hs₂,setFrequency_regs frequency s₁ hg])
  have hon (g : Field) (hg : g.reg ≠ stat1)
      (ha : ∀ f ∈ [ctrl3Cf,ctrl3RcclkOff,stat1CalrcStrt], f.Apart g)
      (hb : ∀ f ∈ [ctrl1K,tng1Div4sel,tng1Presc32On,tng1RDiv,tng1NDiv,tng0NDiv,stat1CalvcoStrt],
        f.Apart g) (hr : g.reg < 8) : g.get (setBandwidth bus bandwidth s₂).2.regs =
        g.bits.get 32 (defaultRegs.getD g.reg 0) := by
    rw [hkeep g hg ha,get_setFields_of_apart hfit (by rw [frequencyFields_map]; exact hb),
      Field.get,hfirst _ hr]
  refine ⟨⟨?_,?_,?_⟩,?_,?_,?_,?_,?_,?_⟩
  · exact (hon ctrl1Syn (by decide) (by decide) (by decide) (by decide)).trans (by decide)
  · exact (hon ctrl1Rx (by decide) (by decide) (by decide) (by decide)).trans (by decide)
  · exact (hon ctrl1Lpt (by decide) (by decide) (by decide) (by decide)).trans (by decide)
  · exact (hkeep _ (by decide) (by decide)).trans hdiv4
  · exact (hkeep _ (by decide) (by decide)).trans hrdiv
  · exact (hkeep _ (by decide) (by decide)).trans hhigh
  · exact (hkeep _ (by decide) (by decide)).trans hlow
  · rw [ht,get_setField_of_apart (show ctrl3RcclkOff.Apart ctrl3Cf by decide) hone,
      Field.get_congr (hk _ (by decide))]
    exact hbset.1
  · exact (congrArg ctrl3RcclkOff.get ht).trans (get_setField _ hone t)

theorem word_join (d : U32) : (d >>> 8) <<< 8 ||| (d &&& 0xff) = d := by
  have hm (i : ℕ) : (0xff : U32).getLsbD i = decide (i < 8) :=
    tng0NDiv.bits.ones_getLsbD (m:=32) (by decide) i
  apply BitVec.eq_of_getLsbD_eq
  intro i hi
  simp only [BitVec.getLsbD_or,BitVec.getLsbD_shiftLeft,BitVec.getLsbD_ushiftRight,
    BitVec.getLsbD_and,hm,hi,decide_true,Bool.true_and]
  by_cases h : i < 8
  · simp [h]
  · simp [h,show 8 + (i - 8) = i by omega]

theorem Tuned.word {frequency bandwidth : U32} {regs : Mem Byte}
    (h : Tuned frequency bandwidth regs)
    (hf : frequency.toNat ≤ 2150000) :
    (tng1NDiv.get regs <<< 8 ||| tng0NDiv.get regs).toNat = (frequency.toNat + 500) / 1000 := by
  rw [h.nDivHigh,h.nDivLow,(divider_high hf).2,word_join,divider_toNat hf]

theorem Tuned.shift {frequency bandwidth : U32} {regs : Mem Byte}
    (h : Tuned frequency bandwidth regs) : tng1RDiv.get regs + tng1Div4sel.get regs = 2 := by
  obtain ⟨_,_,⟨h4,_,hr⟩ | ⟨h4,_,hr⟩⟩ := band_cases frequency
  · rw [h.rDiv,h.div4sel,h4,hr]
    decide
  · rw [h.rDiv,h.div4sel,h4,hr]
    decide

theorem getFrequency_eq (cfg : Config) {u : Tuner} (h₀ : bus.read u.reads = 2)
    (h₁ : bus.read (u.reads + 1) = 2) :
    (getFrequency cfg bus u).1 =
      ((tng1NDiv.get u.chip <<< 8 ||| tng0NDiv.get u.chip) * cfg.refclockKhz /
        ((1 : U32) <<< (tng1RDiv.get u.chip + tng1Div4sel.get u.chip).toNat)) >>> 2 := by
  simp only [getFrequency]
  rw [readReg_eq bus (show tng1 < stat1 by decide) h₀]
  rw [readReg_eq bus (show tng0 < stat1 by decide) h₁]
  rfl

theorem getBandwidth_eq {u : Tuner} (h : bus.read u.reads = 2) :
    (getBandwidth bus u).1 = (ctrl3Cf.get u.chip + 5) * 2000000 := by
  simp only [getBandwidth]
  rw [readReg_eq bus (show ctrl3 < stat1 by decide) h]
  rfl

theorem Tuned.getFrequency {frequency bandwidth : U32} {u : Tuner}
    (h : Tuned frequency bandwidth u.chip) (hf : frequency.toNat ≤ 2150000)
    (h₀ : bus.read u.reads = 2) (h₁ : bus.read (u.reads + 1) = 2) :
    (getFrequency Config.tunerS bus u).1.toNat = 1000 * ((frequency.toNat + 500) / 1000) := by
  have hw := h.word hf
  have hk : (Config.tunerS.refclockKhz).toNat = 16000 := by decide
  have h4 : ((1 : U32) <<< (2 : U32).toNat).toNat = 4 := by decide
  rw [getFrequency_eq Config.tunerS h₀ h₁,h.shift,BitVec.toNat_ushiftRight,BitVec.toNat_udiv,
    BitVec.toNat_mul,hw,hk,h4,Nat.shiftRight_eq_div_pow]
  omega

theorem Tuned.getBandwidth {frequency bandwidth : U32} {u : Tuner}
    (h : Tuned frequency bandwidth u.chip) (h₀ : bus.read u.reads = 2) :
    (getBandwidth bus u).1.toNat = 2000000 * max 5 (min 36 (bandwidth.toNat / 2000000)) := by
  have hc := cutOff_toNat bandwidth
  have h5 : (cutOff bandwidth + 5).toNat = (cutOff bandwidth).toNat + 5 := by
    rw [BitVec.toNat_add]
    change ((cutOff bandwidth).toNat + 5) % 2^32 = _
    omega
  rw [getBandwidth_eq h₀,h.cf,BitVec.toNat_mul,h5,hc]
  change max 5 (min 36 (bandwidth.toNat / 2000000)) * 2000000 % 2^32 = _
  omega

def tuning (ws : List Write) : List Write := ws.filter fun w => w.start != stat1

/-- Two tuners with the same shadow registers below `n`, which have sent the same to the
control and tuning registers since `l` and `l'`. -/
structure Alike (n : ℕ) (l l' : List Write) (s s' : Tuner) : Prop where
  regs : ∀ reg < n, s.regs reg = s'.regs reg
  sent : ∃ ws ws', s.sent = l ++ ws ∧ s'.sent = l' ++ ws' ∧ tuning ws = tuning ws'

variable {n : ℕ} {l l' : List Write} {s' : Tuner}

theorem Alike.setField (h : Alike n l l' s s') (f : Field) (v : U32) :
    Alike n l l' (s.setField f v) (s'.setField f v) := by
  refine ⟨fun reg hr => ?_,h.sent⟩
  by_cases he : reg = f.reg
  · subst he
    rw [setField_regs_self,setField_regs_self,h.regs _ hr]
  · rw [setField_regs_of_ne he,setField_regs_of_ne he,h.regs reg hr]

theorem Alike.setFields (h : Alike n l l' s s') (fs : List (Field × U32)) :
    Alike n l l' (s.setFields fs) (s'.setFields fs) := by
  induction fs generalizing s s' with
  | nil => exact h
  | cons a fs ih => exact ih (h.setField a.1 a.2)

theorem Alike.wait (bus bus' : Bus) (h : Alike stat1 l l' s s') (f : Field) (k : ℕ) :
    Alike stat1 l l' (waitStat1 bus f k s) (waitStat1 bus' f k s') := by
  refine ⟨fun reg hr => ?_,?_⟩
  · rw [waitStat1_regs bus f k s hr.ne,waitStat1_regs bus' f k s' hr.ne,h.regs reg hr]
  · rw [waitStat1_sent,waitStat1_sent]
    exact h.sent

theorem Alike.write (bus bus' : Bus) (h : Alike stat1 l l' s s') {reg : ℕ} (hr : reg ≤ stat1) :
    Alike stat1 l l' (writeReg bus reg (s.regs reg) s).2
      (writeReg bus' reg (s'.regs reg) s').2 := by
  have h8 : reg < 8 := by
    rw [stat1] at hr
    omega
  obtain ⟨ws,ws',hs,hs',he⟩ := h.sent
  refine ⟨fun r hlt => ?_,ws ++ [⟨reg,[s.regs reg]⟩],ws' ++ [⟨reg,[s'.regs reg]⟩],?_,?_,?_⟩
  · rw [writeReg_regs,writeReg_regs,h.regs r hlt]
  · rw [writeReg_sent bus h8,hs,List.append_assoc]
  · rw [writeReg_sent bus' h8,hs',List.append_assoc]
  · rw [tuning,tuning,List.filter_append,List.filter_append]
    rw [tuning,tuning] at he
    rw [he]
    by_cases hst : reg = stat1
    · subst hst
      rfl
    · rw [h.regs reg (lt_of_le_of_ne hr hst)]

theorem Alike.setFrequency (cfg : Config) (bus bus' : Bus) (h : Alike stat1 l l' s s')
    (frequency : U32) :
    Alike stat1 l l' (setFrequency cfg bus frequency s).2
      (setFrequency cfg bus' frequency s').2 := by
  have hq := h.setFields (frequencyFields cfg frequency)
  have h₁ := hq.write bus bus' (show ctrl1 ≤ stat1 by decide)
  have h₂ := h₁.write bus bus' (show tng1 ≤ stat1 by decide)
  have h₃ := h₂.write bus bus' (show tng0 ≤ stat1 by decide)
  have h₄ := h₃.write bus bus' (show stat1 ≤ stat1 by decide)
  exact h₄.wait bus bus' stat1CalvcoStrt trials

theorem Alike.setBandwidth (bus bus' : Bus) (h : Alike stat1 l l' s s') (bandwidth : U32) :
    Alike stat1 l l' (setBandwidth bus bandwidth s).2 (setBandwidth bus' bandwidth s').2 := by
  have hq := h.setFields (bandwidthFields bandwidth)
  have h₁ := hq.write bus bus' (show ctrl3 ≤ stat1 by decide)
  have h₂ := h₁.write bus bus' (show stat1 ≤ stat1 by decide)
  have h₃ := (h₂.wait bus bus' stat1CalrcStrt trials).setField ctrl3RcclkOff 1
  exact h₃.write bus bus' (show ctrl3 ≤ stat1 by decide)

theorem init_sent (bus : Bus) (s : Tuner) :
    (init bus s).2.sent = s.sent ++ [⟨0,load s.regs 0 8⟩] := by
  rw [init_eq]
  split <;> rfl

theorem init_alike (bus bus' : Bus) (s s' : Tuner) :
    Alike stat1 s.sent s'.sent (init bus (setup Config.tunerS s)).2
      (init bus' (setup Config.tunerS s')).2 := by
  have hload (t : Tuner) : load (setup Config.tunerS t).regs 0 8 = defaultRegs := by
    have hr : ∀ reg < 8, (setup Config.tunerS t).regs reg = defaultRegs.getD reg 0 := fun _ hr =>
      setup_regs t hr
    simp only [load,hr 0 (by decide),hr 1 (by decide),hr 2 (by decide),hr 3 (by decide),
      hr 4 (by decide),hr 5 (by decide),hr 6 (by decide),hr 7 (by decide)]
    rfl
  refine ⟨fun reg hr => ?_,[⟨0,defaultRegs⟩],[⟨0,defaultRegs⟩],?_,?_,rfl⟩
  · have h8 : reg < 8 := by
      rw [stat1] at hr
      omega
    rw [init_regs,init_regs,setup_regs s h8,setup_regs s' h8]
  · rw [init_sent,hload,(setup_keeps _ s).1]
  · rw [init_sent,hload,(setup_keeps _ s').1]

def quiet : Bus := ⟨fun _ => 1,fun _ => 2,fun _ => 0,fun _ chip => chip⟩

def tuningWrites (frequency bandwidth : U32) : List Write :=
  tuning (setParams Config.tunerS quiet frequency bandwidth probed).2.sent

/-- The writes do not depend on what was before, nor on the status that is read back. -/
theorem setParams_writes (frequency bandwidth : U32) {s : Tuner}
    (h : bus.write s.sent.length = 1) :
    ∃ ws, (setParams Config.tunerS bus frequency bandwidth s).2.sent = s.sent ++ ws ∧
      tuning ws = tuningWrites frequency bandwidth := by
  have ha := (((init_alike bus quiet s probed).setFrequency Config.tunerS bus quiet
    frequency).setBandwidth bus quiet bandwidth).sent
  have hp : (probed).sent = [] := (setup_keeps Config.tunerS _).1
  rw [tuningWrites,setParams_ok Config.tunerS frequency bandwidth h,
    setParams_ok Config.tunerS frequency bandwidth (rfl : quiet.write probed.sent.length = 1)]
  obtain ⟨ws,ws',hs,hs',he⟩ := ha
  refine ⟨ws,hs,he.trans ?_⟩
  rw [hp,List.nil_append] at hs'
  rw [← hs']

theorem setFrequency_fields (cfg : Config) (frequency : U32) (s : Tuner) :
    (setFrequency cfg bus frequency s).2.fields = s.fields ++ frequencyFields cfg frequency := by
  simp only [setFrequency,waitStat1_fields,writeReg_fields,setFields_fields]

theorem setBandwidth_fields (bandwidth : U32) (s : Tuner) :
    (setBandwidth bus bandwidth s).2.fields =
      s.fields ++ bandwidthFields bandwidth ++ [(ctrl3RcclkOff,1)] := by
  simp only [setBandwidth,waitStat1_fields,writeReg_fields,setFields_fields,setField_fields]

/-- Every field assignment of a tune fits into its field. -/
theorem setParams_fit {frequency : U32} (hf : frequency.toNat ≤ 2150000) (bandwidth : U32)
    (h : bus.write s.sent.length = 1) :
    ∃ fs, (setParams Config.tunerS bus frequency bandwidth s).2.fields = s.fields ++ fs ∧
      Fit fs := by
  have hi : (init bus (setup Config.tunerS s)).2.fields = s.fields ++ [(ctrl2CoDiv,0)] := by
    rw [init_eq,setup_tunerS]
    split <;> rfl
  refine ⟨[(ctrl2CoDiv,0)] ++ frequencyFields Config.tunerS frequency ++
    (bandwidthFields bandwidth ++ [(ctrl3RcclkOff,1)]),?_,?_⟩
  · rw [setParams_ok Config.tunerS frequency bandwidth h,setBandwidth_fields,setFrequency_fields,hi]
    simp only [List.append_assoc]
  · intro a ha
    simp only [List.mem_append,List.mem_singleton] at ha
    rcases ha with (rfl | ha) | ha | rfl
    · exact (by decide : (0 : U32).toNat < 2^2)
    · exact frequency_fit hf a ha
    · exact bandwidth_fit bandwidth a ha
    · exact (by decide : (1 : U32).toNat < 2^1)

theorem Tuned.congr {frequency bandwidth : U32} {regs regs' : Mem Byte}
    (h : Tuned frequency bandwidth regs) (he : ∀ reg < stat1, regs' reg = regs reg) :
    Tuned frequency bandwidth regs' := by
  have hg (g : Field) (hr : g.reg < stat1) : g.get regs' = g.get regs := Field.get_congr (he _ hr)
  exact ⟨⟨(hg _ (by decide)).trans h.awake.1,(hg _ (by decide)).trans h.awake.2.1,
      (hg _ (by decide)).trans h.awake.2.2⟩,
    (hg _ (by decide)).trans h.div4sel,(hg _ (by decide)).trans h.rDiv,
    (hg _ (by decide)).trans h.nDivHigh,(hg _ (by decide)).trans h.nDivLow,
    (hg _ (by decide)).trans h.cf,(hg _ (by decide)).trans h.rcclkOff⟩

theorem setParams_tuned {frequency : U32} (hf : frequency.toNat ≤ 2150000) (bandwidth : U32)
    (h : ∀ k < 8, bus.write (s.sent.length + k) = 1) :
    Tuned frequency bandwidth (setParams Config.tunerS bus frequency bandwidth s).2.chip := by
  have hs := setParams_synced Config.tunerS frequency bandwidth h
  exact (setParams_regs_tuned hf bandwidth (h 0 (by decide))).congr fun reg hr =>
    hs.agree reg hr List.not_mem_nil

theorem setParams_reads (frequency bandwidth : U32) (h : bus.write s.sent.length = 1) :
    s.reads ≤ (setParams Config.tunerS bus frequency bandwidth s).2.reads := by
  have hi : (init bus (setup Config.tunerS s)).2.reads = s.reads := by
    rw [init_eq]
    split <;> exact (setup_keeps Config.tunerS s).2
  rw [setParams_ok Config.tunerS frequency bandwidth h,← hi]
  have hf : ∀ u : Tuner, u.reads ≤ (setFrequency Config.tunerS bus frequency u).2.reads := by
    intro u
    refine le_trans (le_of_eq ?_) (waitStat1_reads bus _ _ _)
    simp only [writeReg_reads,setFields_reads]
  have hb : ∀ u : Tuner, u.reads ≤ (setBandwidth bus bandwidth u).2.reads := by
    intro u
    simp only [setBandwidth,writeReg_reads,setField_reads]
    refine le_trans (le_of_eq ?_) (waitStat1_reads bus _ _ _)
    simp only [writeReg_reads,setFields_reads]
  exact (hf _).trans (hb _)

inductive Call
  | init
  | sleep
  | setParams (frequency bandwidth : U32)
  | getFrequency
  | getBandwidth

def Call.exec (bus : Bus) : Call → Tuner → Tuner
  | .init, s => (Stv6110x.init bus s).2
  | .sleep, s => (Stv6110x.sleep bus s).2
  | .setParams frequency bandwidth, s =>
    (Stv6110x.setParams Config.tunerS bus frequency bandwidth s).2
  | .getFrequency, s => (Stv6110x.getFrequency Config.tunerS bus s).2
  | .getBandwidth, s => (Stv6110x.getBandwidth bus s).2

def runCalls (bus : Bus) (cs : List Call) (s : Tuner) : Tuner :=
  cs.foldl (fun s c => c.exec bus s) s

/-- After any calls, a tune without I2C errors wakes the chip and tunes it to the multiple of
1000 kHz nearest to the request, halves up, and to the bandwidth rounded down to 2 MHz and
clamped, as the getters then report from any later state with the same chip. No field spills
over, no product overflows, and what is written depends on the two parameters only. -/
theorem set_params_accurate (bus : Bus) (s₀ : Tuner) (cs : List Call) (frequency bandwidth : U32)
    (hw : ∀ k, (runCalls bus cs s₀).sent.length ≤ k → bus.write k = 1)
    (hr : ∀ k, (runCalls bus cs s₀).reads ≤ k → bus.read k = 2)
    (hlo : 950000 ≤ frequency.toNat) (hhi : frequency.toNat ≤ 2150000) :
    let s := runCalls bus cs s₀
    let r := setParams Config.tunerS bus frequency bandwidth s
    let t := r.2
    let pVal := (band frequency).2.2
    r.1 = 0 ∧
    (ctrl1Syn.get t.chip = 1 ∧ ctrl1Rx.get t.chip = 1 ∧ ctrl1Lpt.get t.chip = 1) ∧
    ctrl3RcclkOff.get t.chip = 1 ∧
    (∀ u : Tuner, u.chip = t.chip → t.reads ≤ u.reads →
      let reported := (getFrequency Config.tunerS bus u).1.toNat
      reported = 1000 * ((frequency.toNat + 500) / 1000) ∧
      reported ≤ frequency.toNat + 500 ∧ frequency.toNat ≤ reported + 500 ∧
      (getBandwidth bus u).1.toNat = 2000000 * max 5 (min 36 (bandwidth.toNat / 2000000))) ∧
    (∃ fs, t.fields = s.fields ++ fs ∧ Fit fs) ∧
    (∃ ws, t.sent = s.sent ++ ws ∧ tuning ws = tuningWrites frequency bandwidth) ∧
    frequency.toNat * (rDivVal (rDivOpt Config.tunerS pVal)).toNat * pVal.toNat < 2^32 ∧
    (tng1NDiv.get t.chip <<< 8 ||| tng0NDiv.get t.chip).toNat * Config.tunerS.refclockKhz.toNat < 2^32 ∧
    ((ctrl3Cf.get t.chip).toNat + 5) * 2000000 < 2^32 := by
  intro s r t pVal
  have h8 : ∀ k < 8, bus.write (s.sent.length + k) = 1 := fun k _ => hw _ (Nat.le_add_right _ _)
  have h₀ : bus.write s.sent.length = 1 := hw _ le_rfl
  have htuned : Tuned frequency bandwidth t.chip := setParams_tuned hhi bandwidth h8
  have hreads : s.reads ≤ t.reads := setParams_reads frequency bandwidth h₀
  have hret : r.1 = 0 := by
    change (setParams Config.tunerS bus frequency bandwidth s).1 = 0
    rw [setParams_ok Config.tunerS frequency bandwidth h₀]
  refine ⟨hret,htuned.awake,htuned.rcclkOff,fun u hu hle => ?_,setParams_fit hhi bandwidth h₀,
    setParams_writes frequency bandwidth h₀,?_,?_,?_⟩
  · rw [← hu] at htuned
    have hread : s.reads ≤ u.reads := hreads.trans hle
    have hg := htuned.getFrequency hhi (hr _ hread) (hr _ (hread.trans (Nat.le_succ _)))
    have hb := htuned.getBandwidth (hr _ hread)
    intro reported
    have hrep : reported = 1000 * ((frequency.toNat + 500) / 1000) := hg
    refine ⟨hrep,?_,?_,hb⟩
    · rw [hrep]
      omega
    · rw [hrep]
      omega
  · rw [Nat.mul_assoc,(band_factor frequency).2]
    omega
  · have hk : (Config.tunerS.refclockKhz).toNat = 16000 := by decide
    rw [htuned.word hhi,hk]
    omega
  · have hc := cutOff_toNat bandwidth
    rw [htuned.cf,hc]
    omega

/-- A BS channel, after the tuner was put to sleep. -/
theorem set_params_accurate_sample :
    let t := (setParams Config.tunerS quiet 1049480 28860000 (runCalls quiet [.sleep] probed)).2
    (getFrequency Config.tunerS quiet t).1.toNat = 1049000 ∧
      (getBandwidth quiet t).1.toNat = 28000000 := by
  intro t
  obtain ⟨_,_,_,hu,_⟩ := set_params_accurate quiet probed [.sleep] 1049480 28860000 (fun _ _ => rfl)
    (fun _ _ => rfl) (by decide) (by decide)
  obtain ⟨hf,_,_,hb⟩ := hu t rfl le_rfl
  exact ⟨hf,hb⟩

end Stv6110x
end AkbPcr20x
