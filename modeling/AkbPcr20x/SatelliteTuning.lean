import AkbPcr20x.Stv6110x

/-! ISDB-S tuning: when a tune that reports success has reached the chip. The shadow
registers and the chip drift apart where a field is set and come together again where a
write is accepted. -/
namespace AkbPcr20x
namespace Stv6110x

open Memory

variable (cfg : Config) (bus : Bus)

/-- After `n` write transfers the chip has what the shadow registers say, the registers in
`dirty` aside. STAT1 and the ones behind it report the status of the chip. -/
structure Synced (n : ℕ) (dirty : List ℕ) (s : Tuner) : Prop where
  sent : s.sent.length = n
  agree : ∀ reg < stat1, reg ∉ dirty → s.chip reg = s.regs reg

variable {bus} {n : ℕ} {dirty : List ℕ} {s : Tuner}

theorem Synced.setField (h : Synced n dirty s) (f : Field) (v : U32) :
    Synced n (f.reg::dirty) (s.setField f v) := by
  refine ⟨h.sent,fun reg hr hd => ?_⟩
  rw [List.mem_cons,not_or] at hd
  rw [setField_chip,setField_regs_of_ne hd.1,h.agree reg hr hd.2]

theorem Synced.mono (h : Synced n dirty s) {dirty' : List ℕ} (hd : ∀ reg ∈ dirty, reg ∈ dirty') :
    Synced n dirty' s :=
  ⟨h.sent,fun reg hr hn => h.agree reg hr fun hm => hn (hd reg hm)⟩

theorem Synced.setFields (h : Synced n dirty s) (l : List (Field × U32)) :
    Synced n (l.map (·.1.reg) ++ dirty) (s.setFields l) := by
  induction l generalizing s dirty with
  | nil => exact h
  | cons a l ih =>
    refine (ih (h.setField a.1 a.2)).mono fun reg hm => ?_
    simp only [List.mem_append,List.mem_cons,List.map_cons,List.cons_append] at hm ⊢
    tauto

theorem Synced.wait (bus : Bus) (h : Synced n dirty s) (f : Field) (k : ℕ) :
    Synced n dirty (waitStat1 bus f k s) := by
  refine ⟨?_,fun reg hr hd => ?_⟩
  · rw [waitStat1_sent,h.sent]
  · rw [waitStat1_chip,waitStat1_regs bus f k s hr.ne,h.agree reg hr hd]

theorem Synced.write (h : Synced n dirty s) {reg : ℕ} (hr : reg < 8) (hk : bus.write n = 1) :
    Synced (n+1) (dirty.filter (· != reg)) (writeReg bus reg (s.regs reg) s).2 := by
  refine ⟨?_,fun r hlt hd => ?_⟩
  · rw [writeReg_sent bus hr,List.length_append,h.sent]
    rfl
  · rw [writeReg_chip bus hr (by rw [h.sent]; exact hk),writeReg_regs]
    by_cases he : r = reg
    · rw [he,Function.update_self]
    · rw [Function.update_of_ne he]
      refine h.agree r hlt fun hm => hd (List.mem_filter.mpr ⟨hm,?_⟩)
      simpa using he

theorem Synced.clean (h : Synced n dirty s) (hd : ∀ reg ∈ dirty, stat1 ≤ reg) : Synced n [] s :=
  ⟨h.sent,fun reg hr _ => h.agree reg hr fun hm => (hd reg hm).not_gt hr⟩

theorem init_eq (s : Tuner) :
    init bus s = if bus.write s.sent.length = 1 then
      (0,{s with sent := s.sent ++ [⟨0,load s.regs 0 8⟩],
                 chip := store s.chip 0 (load s.regs 0 8)})
      else (-1,{s with sent := s.sent ++ [⟨0,load s.regs 0 8⟩],
                       chip := bus.lost s.sent.length s.chip}) := by
  rw [init,writeRegs_eq bus (by rw [load_length])]
  by_cases hk : bus.write s.sent.length = 1
  · simp [hk]
  · simp [hk,Errno.eremoteio]

theorem init_synced (hk : bus.write s.sent.length = 1) :
    Synced (s.sent.length + 1) [] (init bus s).2 := by
  rw [init_eq,if_pos hk]
  refine ⟨?_,fun reg hr _ => ?_⟩
  · rw [List.length_append]
    rfl
  · exact store_load _ _ 0 8 (Nat.zero_le _) (by rw [stat1] at hr; omega)

theorem setFrequency_synced (frequency : U32) (h : Synced n [] s)
    (hk : ∀ k < 4, bus.write (n + k) = 1) :
    Synced (n + 4) [] (setFrequency cfg bus frequency s).2 := by
  have hq : Synced n [ctrl1,tng1,tng1,tng1,tng1,tng0,stat1] _ :=
    h.setFields (frequencyFields cfg frequency)
  have h₁ := hq.write (show ctrl1 < 8 by decide) (hk 0 (by decide))
  have h₂ := h₁.write (show tng1 < 8 by decide) (hk 1 (by decide))
  have h₃ := h₂.write (show tng0 < 8 by decide) (hk 2 (by decide))
  have h₄ := h₃.write (show stat1 < 8 by decide) (hk 3 (by decide))
  exact (h₄.wait bus stat1CalvcoStrt trials).clean (by decide)

theorem setBandwidth_synced (bandwidth : U32) (h : Synced n [] s)
    (hk : ∀ k < 3, bus.write (n + k) = 1) :
    Synced (n + 3) [] (setBandwidth bus bandwidth s).2 := by
  have hq : Synced n [ctrl3,ctrl3,stat1] _ := h.setFields (bandwidthFields bandwidth)
  have h₁ := hq.write (show ctrl3 < 8 by decide) (hk 0 (by decide))
  have h₂ := h₁.write (show stat1 < 8 by decide) (hk 1 (by decide))
  have h₃ := (h₂.wait bus stat1CalrcStrt trials).setField ctrl3RcclkOff 1
  have h₄ := h₃.write (show ctrl3 < 8 by decide) (hk 2 (by decide))
  exact h₄.clean (by decide)

theorem setFrequency_length (frequency : U32) (s : Tuner) :
    (setFrequency cfg bus frequency s).2.sent.length = s.sent.length + 4 := by
  simp only [setFrequency,waitStat1_sent]
  rw [writeReg_sent bus (by decide),writeReg_sent bus (by decide),writeReg_sent bus (by decide),
    writeReg_sent bus (by decide),setFields_sent]
  simp

theorem setBandwidth_length (bandwidth : U32) (s : Tuner) :
    (setBandwidth bus bandwidth s).2.sent.length = s.sent.length + 3 := by
  simp only [setBandwidth]
  rw [writeReg_sent bus (by decide),setField_sent,waitStat1_sent,writeReg_sent bus (by decide),
    writeReg_sent bus (by decide),setFields_sent]
  simp

/-- The shadow registers that a tune starts from. -/
def setup (s : Tuner) : Tuner := setupDivider cfg (initRegs s)

theorem setup_keeps (s : Tuner) : (setup cfg s).sent = s.sent ∧ (setup cfg s).reads = s.reads := by
  rw [setup,setupDivider]
  split_ifs <;> exact ⟨rfl,rfl⟩

/-- A tune whose first write fails stops there and reports it. -/
theorem setParams_failed (frequency bandwidthHz : U32) {s : Tuner}
    (h : bus.write s.sent.length ≠ 1) :
    setParams cfg bus frequency bandwidthHz s = init bus (setup cfg s) ∧
      (setParams cfg bus frequency bandwidthHz s).1 = -1 := by
  have hi : (init bus (setup cfg s)).1 = -1 := by
    rw [init_eq,(setup_keeps cfg s).1,if_neg h]
  have he : setParams cfg bus frequency bandwidthHz s = init bus (setup cfg s) := by
    rw [setParams]
    exact if_pos (by rw [show (init bus (setupDivider cfg (initRegs s))).1 = -1 from hi]; decide)
  exact ⟨he,by rw [he,hi]⟩

/-- Otherwise nothing that happens later is reported. -/
theorem setParams_ok (frequency bandwidthHz : U32) {s : Tuner}
    (h : bus.write s.sent.length = 1) :
    setParams cfg bus frequency bandwidthHz s =
      (0,(setBandwidth bus bandwidthHz
        (setFrequency cfg bus frequency (init bus (setup cfg s)).2).2).2) := by
  have hi : ¬ (init bus (setupDivider cfg (initRegs s))).1 < 0 := by
    change ¬ (init bus (setup cfg s)).1 < 0
    rw [init_eq,(setup_keeps cfg s).1,if_pos h]
    exact lt_irrefl (0 : ℤ)
  rw [setParams]
  exact if_neg hi

/-- A tune that returns 0 has had all its writes accepted, so that the chip has what the
driver's registers say. -/
def Visible (frequency bandwidthHz : U32) (bus : Bus) (s : Tuner) : Prop :=
  let r := setParams cfg bus frequency bandwidthHz s
  r.1 = 0 →
    (∀ k, s.sent.length ≤ k → k < r.2.sent.length → bus.write k = 1) ∧
      ∀ reg ∈ [ctrl1,ctrl2,ctrl3,tng0,tng1], r.2.chip reg = r.2.regs reg

theorem setParams_length (frequency bandwidthHz : U32) {s : Tuner}
    (h : bus.write s.sent.length = 1) :
    (setParams cfg bus frequency bandwidthHz s).2.sent.length = s.sent.length + 8 := by
  have h₀ : bus.write (setup cfg s).sent.length = 1 := by
    rw [(setup_keeps cfg s).1]
    exact h
  have hi := (init_synced h₀).sent
  rw [(setup_keeps cfg s).1] at hi
  rw [setParams_ok cfg frequency bandwidthHz h,setBandwidth_length,setFrequency_length,hi]

theorem setParams_synced (frequency bandwidthHz : U32) {s : Tuner}
    (h : ∀ k < 8, bus.write (s.sent.length + k) = 1) :
    Synced (s.sent.length + 8) [] (setParams cfg bus frequency bandwidthHz s).2 := by
  have h₀ := h 0 (by decide)
  have hs : bus.write (setup cfg s).sent.length = 1 := by
    rw [(setup_keeps cfg s).1]
    exact h₀
  have hi := init_synced hs
  rw [(setup_keeps cfg s).1] at hi
  rw [setParams_ok cfg frequency bandwidthHz h₀]
  have hf := setFrequency_synced cfg frequency hi fun k hk => by
    rw [Nat.add_assoc]
    exact h (1 + k) (by omega)
  exact setBandwidth_synced bandwidthHz hf fun k hk => by
    have hb := h (5 + k) (by omega)
    rwa [show s.sent.length + 1 + 4 + k = s.sent.length + (5 + k) by omega]

/-- The first of the eight writes is checked, the others are not. -/
theorem visible_iff (frequency bandwidthHz : U32) (bus : Bus) (s : Tuner) :
    Visible cfg frequency bandwidthHz bus s ↔
      bus.write s.sent.length ≠ 1 ∨ ∀ k < 8, bus.write (s.sent.length + k) = 1 := by
  constructor
  · intro hv
    by_cases h : bus.write s.sent.length = 1
    · refine Or.inr fun k hk => ?_
      have hr : (setParams cfg bus frequency bandwidthHz s).1 = 0 := by
        rw [setParams_ok cfg frequency bandwidthHz h]
      refine (hv hr).1 _ (Nat.le_add_right _ _) ?_
      rw [setParams_length cfg frequency bandwidthHz h]
      omega
    · exact Or.inl h
  · rintro (h | h) hr
    · rw [(setParams_failed cfg frequency bandwidthHz h).2] at hr
      exact absurd hr (by decide)
    · have hs := setParams_synced cfg frequency bandwidthHz h
      refine ⟨fun k hk hlt => ?_,fun reg hreg => ?_⟩
      · rw [hs.sent] at hlt
        have hk' := h (k - s.sent.length) (by omega)
        rwa [Nat.add_sub_cancel' hk] at hk'
      · have hlt : ∀ reg ∈ [ctrl1,ctrl2,ctrl3,tng0,tng1], reg < stat1 := by decide
        exact hs.agree reg (hlt reg hreg) List.not_mem_nil

def Config.tunerS : Config := ⟨16000000,1,by decide⟩

def probed : Tuner := setup Config.tunerS ⟨fun _ => 0,fun _ => 0,[],0,[]⟩

/-- The write of TNG0 gets lost. -/
def tng0Lost : Bus := ⟨fun k => if k = 3 then -Errno.eremoteio else 1,fun _ => 2,fun _ => 0,
  fun _ chip => chip⟩

/-- The tune reports success, and the chip still has the divider of the default registers. -/
theorem not_visible :
    ¬ Visible Config.tunerS 1049480 28860000 tng0Lost probed ∧
      (setParams Config.tunerS tng0Lost 1049480 28860000 probed).1 = 0 ∧
      (setParams Config.tunerS tng0Lost 1049480 28860000 probed).2.chip tng0 = 0xdc ∧
      (setParams Config.tunerS tng0Lost 1049480 28860000 probed).2.regs tng0 = 0x19 := by
  have hr : (setParams Config.tunerS tng0Lost 1049480 28860000 probed).1 = 0 := by decide +kernel
  have hc : (setParams Config.tunerS tng0Lost 1049480 28860000 probed).2.chip tng0 = 0xdc := by
    decide +kernel
  have hs : (setParams Config.tunerS tng0Lost 1049480 28860000 probed).2.regs tng0 = 0x19 := by
    decide +kernel
  refine ⟨fun hv => ?_,hr,hc,hs⟩
  have he := (hv hr).2 tng0 (by decide)
  rw [hc,hs] at he
  exact absurd he (by decide)

end Stv6110x
end AkbPcr20x
