import AkbPcr20x.Diagnostics

/-! Several commands in one packet. A packet whose commands are all complete can be
joined with another one: one pass over both does what two passes do. -/
namespace AkbPcr20x
namespace Packing

open Memory MainLoop Command I2cEngine Link Diagnostics

/-- All commands of the packet are complete and within the firmware's limits. -/
def Complete (p : List Byte) : Prop := (commands.decode p).2 = .done

theorem operand₁_append {f : Byte → Cmd} {p r : List Byte} {c : Cmd}
    (h : operand₁ f p = .ok (c,r)) (q : List Byte) : operand₁ f (p ++ q) = .ok (c,r ++ q) := by
  rcases p with _ | ⟨x,p⟩
  · cases h
  · simp only [operand₁,Except.ok.injEq,Prod.mk.injEq] at h
    rw [← h.1,← h.2]
    rfl

theorem operand₂_append {f : Byte → Byte → Cmd} {p r : List Byte} {c : Cmd}
    (h : operand₂ f p = .ok (c,r)) (q : List Byte) : operand₂ f (p ++ q) = .ok (c,r ++ q) := by
  rcases p with _ | ⟨x,_ | ⟨y,p⟩⟩
  · cases h
  · cases h
  · simp only [operand₂,Except.ok.injEq,Prod.mk.injEq] at h
    rw [← h.1,← h.2]
    rfl

theorem readOperands_append {p r : List Byte} {c : Cmd} (h : readOperands p = .ok (c,r))
    (q : List Byte) : readOperands (p ++ q) = .ok (c,r ++ q) := by
  rcases p with _ | ⟨adrs,_ | ⟨len,p⟩⟩
  · cases h
  · cases h
  · simp only [readOperands,List.cons_append] at h ⊢
    by_cases hl : i2cBufLen < len.toNat
    · rw [if_pos hl] at h
      cases h
    · rw [if_neg hl,Except.ok.injEq,Prod.mk.injEq] at h
      rw [if_neg hl,h.1,h.2]

theorem writeOperands_append {p r : List Byte} {c : Cmd} (h : writeOperands p = .ok (c,r))
    (q : List Byte) : writeOperands (p ++ q) = .ok (c,r ++ q) := by
  rcases p with _ | ⟨adrs,_ | ⟨len,p⟩⟩
  · cases h
  · cases h
  · simp only [writeOperands,List.cons_append] at h ⊢
    by_cases hl : i2cBufLen < len.toNat ∨ p.length < len.toNat
    · rw [if_pos hl] at h
      cases h
    · rw [if_neg hl,Except.ok.injEq,Prod.mk.injEq] at h
      rw [not_or] at hl
      have hn : ¬ (i2cBufLen < len.toNat ∨ (p ++ q).length < len.toNat) := by
        rw [List.length_append]
        omega
      rw [if_neg hn,List.take_append_of_le_length (by omega),
        List.drop_append_of_le_length (by omega),h.1,h.2]

/-- The bounds checks count all bytes that are left, so more bytes behind an accepted
command change nothing. -/
theorem operands_append {op : Op} {p r : List Byte} {c : Cmd} (h : operands op p = .ok (c,r))
    (q : List Byte) : operands op (p ++ q) = .ok (c,r ++ q) := by
  cases op with
  | i2cRead => exact readOperands_append h q
  | i2cWrite => exact writeOperands_append h q
  | regWrite => exact operand₂_append h q
  | portCfg => exact operand₂_append h q
  | regRead => exact operand₁_append h q
  | portWrite => exact operand₁_append h q
  | ifconfig => exact operand₁_append h q
  | _ =>
    simp only [operands,Except.ok.injEq,Prod.mk.injEq] at h ⊢
    exact ⟨h.1,congrArg (· ++ q) h.2⟩

theorem operand₁_malformed {f : Byte → Cmd} {p : List Byte} {s : Stop}
    (h : operand₁ f p = .error s) : s = .malformed := by
  rcases p with _ | ⟨x,p⟩
  · exact (Except.error.inj h).symm
  · cases h

theorem operand₂_malformed {f : Byte → Byte → Cmd} {p : List Byte} {s : Stop}
    (h : operand₂ f p = .error s) : s = .malformed := by
  rcases p with _ | ⟨x,_ | ⟨y,p⟩⟩
  · exact (Except.error.inj h).symm
  · exact (Except.error.inj h).symm
  · cases h

theorem readOperands_malformed {p : List Byte} {s : Stop} (h : readOperands p = .error s) :
    s = .malformed := by
  rcases p with _ | ⟨x,_ | ⟨y,p⟩⟩
  · exact (Except.error.inj h).symm
  · exact (Except.error.inj h).symm
  · simp only [readOperands] at h
    split at h
    · exact (Except.error.inj h).symm
    · cases h

theorem writeOperands_malformed {p : List Byte} {s : Stop} (h : writeOperands p = .error s) :
    s = .malformed := by
  rcases p with _ | ⟨x,_ | ⟨y,p⟩⟩
  · exact (Except.error.inj h).symm
  · exact (Except.error.inj h).symm
  · simp only [writeOperands] at h
    split at h
    · exact (Except.error.inj h).symm
    · cases h

theorem operands_malformed {op : Op} {p : List Byte} {s : Stop} (h : operands op p = .error s) :
    s = .malformed := by
  cases op with
  | i2cRead => exact readOperands_malformed h
  | i2cWrite => exact writeOperands_malformed h
  | regWrite => exact operand₂_malformed h
  | portCfg => exact operand₂_malformed h
  | regRead => exact operand₁_malformed h
  | portWrite => exact operand₁_malformed h
  | ifconfig => exact operand₁_malformed h
  | _ => cases h

/-- The commands of a complete packet are found again in front of any bytes. -/
theorem decode_join {p : List Byte} (h : Complete p) (q : List Byte) :
    commands.decode (p ++ q) =
      ((commands.decode p).1 ++ (commands.decode q).1,(commands.decode q).2) := by
  have hd : (commands.decode p).2 = Stop.done := h
  refine commands.decode_append ?_ ?_ hd q
  · intro p c r hp q
    rcases p with _ | ⟨x,p⟩
    · cases hp
    · exact operands_append hp q
  · intro p hp
    rcases p with _ | ⟨x,p⟩
    · rfl
    · cases operands_malformed hp

variable {σ : Type}

theorem runAll_join (b : Board σ) (c : Core σ) (ks ks' : List Cmd) :
    let first := runAll b c ks
    let second := runAll b first.core ks'
    runAll b c (ks ++ ks') =
      ⟨second.core,first.log ++ second.log,first.answer ++ second.answer⟩ := by
  induction ks generalizing c with
  | nil => rfl
  | cons k ks ih =>
    have hk := ih (k.run b c).core
    simp only [List.cons_append,runAll] at hk ⊢
    rw [hk,List.append_assoc,List.append_assoc]

theorem effect_join (b : Board σ) (c : Core σ) {p : List Byte} (h : Complete p) (q : List Byte) :
    let first := effect b c p
    let second := effect b first.core q
    effect b c (p ++ q) =
      ⟨second.core,first.log ++ second.log,first.answer ++ second.answer⟩ := by
  simp only [effect,decode_join h q]
  exact runAll_join b c _ _

theorem poll_deliver (b : Board σ) (fw : Fw σ) (pkt : List Byte) (hi : fw.inBusy = false)
    (hp : pkt.length ≤ 64) (ha : (effect b fw.core pkt).answer.length ≤ 64) :
    let fw' := mainLoop b (deliver fw pkt)
    (pass b (deliver fw pkt)).log = (effect b fw.core pkt).log ∧
      fw'.core = (effect b fw.core pkt).core ∧ fw'.outBusy = true ∧
      (answer fw').getD [] = (effect b fw.core pkt).answer := by
  have hd : packet (deliver fw pkt) = pkt := packet_deliver fw (by omega)
  have ho : (deliver fw pkt).outBusy = false := rfl
  have hi' : (deliver fw pkt).inBusy = false := hi
  have he : (effect b (deliver fw pkt).core (packet (deliver fw pkt))).answer =
      (effect b fw.core pkt).answer := by
    rw [hd]
    rfl
  have hr := mainLoop_ready b ho hi'
  have hw := answer_mainLoop b ho hi' (by rw [he]; omega)
  rw [he] at hw
  rw [hd] at hr
  refine ⟨(pass_deliver b fw (by omega)).log.trans (List.nil_append _),hr.1,hr.2,?_⟩
  rw [hw]
  by_cases hn : (effect b fw.core pkt).answer = []
  · rw [if_pos hn,hn]
    rfl
  · rw [if_neg hn]
    rfl

@[simp] theorem taken_core (fw : Fw σ) : (taken fw).core = fw.core := rfl

/-- One pass over two packets joined does what two passes do: the same I2C calls, register
and counter updates in the same order, the same state, and both answers in one. -/
theorem packets_compose (b : Board σ) (fw : Fw σ) (p q : List Byte) (hi : fw.inBusy = false)
    (hp : Complete p) (hl : (p ++ q).length ≤ 64)
    (ha : (effect b fw.core p).answer.length +
      (effect b (effect b fw.core p).core q).answer.length ≤ 64) :
    let one := mainLoop b (deliver fw (p ++ q))
    let first := mainLoop b (deliver fw p)
    let second := mainLoop b (deliver (taken first) q)
    (pass b (deliver fw (p ++ q))).log =
        (pass b (deliver fw p)).log ++ (pass b (deliver (taken first) q)).log ∧
      one.core = second.core ∧ one.outBusy = second.outBusy ∧
      (answer one).getD [] = (answer first).getD [] ++ (answer second).getD [] := by
  intro one first second
  have hj := effect_join b fw.core hp q
  simp only at hj
  have hpq := hl
  rw [List.length_append] at hpq
  have hf := poll_deliver b fw p hi (by omega) (by omega)
  have hc : (taken first).core = (effect b fw.core p).core := (taken_core first).trans hf.2.1
  have hs := poll_deliver b (taken first) q rfl (by omega) (by rw [hc]; omega)
  have ho := poll_deliver b fw (p ++ q) hi hl (by rw [hj,List.length_append]; exact ha)
  rw [hj] at ho
  rw [hc] at hs
  refine ⟨?_,ho.2.1.trans hs.2.1.symm,ho.2.2.1.trans hs.2.2.1.symm,?_⟩
  · rw [ho.1,hf.1,hs.1]
  · rw [ho.2.2.2,hf.2.2.2,hs.2.2.2]

/-- A write that is not acknowledged and `CMD_I2C_STATUS` behind it: the answer counts
the failure. -/
theorem packets_compose_sample :
    let b := board fun _ => 0
    let fw := idle (Ctl.fresh (fun _ => bmDone) fun _ => 0)
    let second := mainLoop b (deliver (taken (mainLoop b (deliver fw [0x61,0x10,0x00]))) [0x62])
    (answer (mainLoop b (deliver fw ([0x61,0x10,0x00] ++ [0x62])))).getD [] =
        (answer second).getD [] ∧
      (answer second).getD [] = [0,0,0,1,0,0,0,0,0,0,0,0] := by
  intro b fw second
  have hw : commands.decode [0x61,0x10,0x00] = ([.i2cWrite 0x10 []],.done) := by
    rw [commands.decode_ok (q:=[]) rfl,commands.decode_error (e:=.done) rfl]
    rfl
  have hs : commands.decode [0x62] = ([.i2cStatus],.done) := decode_status 1
  have hf : (effect b fw.core [0x61,0x10,0x00]).answer = [] := by
    rw [effect,hw]
    decide +kernel
  have hq : (effect b (effect b fw.core [0x61,0x10,0x00]).core [0x62]).answer =
      [0,0,0,1,0,0,0,0,0,0,0,0] := by
    rw [effect,effect,hw,hs]
    decide +kernel
  have hp := poll_deliver b fw [0x61,0x10,0x00] rfl (by decide) (by rw [hf]; decide)
  have hc : (taken (mainLoop b (deliver fw [0x61,0x10,0x00]))).core =
      (effect b fw.core [0x61,0x10,0x00]).core := (taken_core _).trans hp.2.1
  have ha : (answer second).getD [] = [0,0,0,1,0,0,0,0,0,0,0,0] := by
    have he := poll_deliver b (taken (mainLoop b (deliver fw [0x61,0x10,0x00]))) [0x62] rfl
      (by decide) (by rw [hc,hq]; decide)
    rw [hc,hq] at he
    exact he.2.2.2
  have hj := (packets_compose b fw [0x61,0x10,0x00] [0x62] rfl (by rw [Complete,hw]) (by decide)
    (by rw [hf,hq]; decide)).2.2.2
  rw [hp.2.2.2,hf,List.nil_append] at hj
  exact ⟨hj,ha⟩

end Packing
end AkbPcr20x
