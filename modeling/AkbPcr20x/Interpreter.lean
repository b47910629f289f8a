import AkbPcr20x.Command

/-! A pass of `main_loop` refines the command language: it runs exactly the commands
that its packet decodes to, and it aborts exactly when decoding stops at a command
that is not well formed. -/
namespace AkbPcr20x
namespace Command

open Memory MainLoop Pass

variable {σ : Type}

def rest (l : Pass σ) : List Byte := load l.outBuf l.ap1 l.cmdCnt.toNat

@[simp] theorem rest_length (l : Pass σ) : (rest l).length = l.cmdCnt.toNat :=
  load_length _ _ _

/-- The pass after the effect `e` of a command that took `k` more bytes. -/
def after (l : Pass σ) (e : Effect σ) (k : ℕ) : Pass σ :=
  {l with core := e.core, log := l.log ++ e.log, inBuf := store l.inBuf l.ap2 e.answer,
          ap2 := l.ap2 + e.answer.length, retCnt := l.retCnt + BitVec.ofNat 8 e.answer.length,
          ap1 := l.ap1 + k, cmdCnt := l.cmdCnt - BitVec.ofNat 8 k}

/-- An aborted command has only moved the first auto-pointer. -/
def Discarded (l l' : Pass σ) : Prop :=
  ∃ k n, l' = ({l with ap1 := k, cmdCnt := n}).abort

theorem ofNat_add_one (n : ℕ) : BitVec.ofNat 8 (n+1) = BitVec.ofNat 8 n + 1 := by
  apply BitVec.eq_of_toNat_eq
  simp

theorem fillBuf_eq (n i : ℕ) (l : Pass σ) :
    fillBuf n i l =
      {l with core := {l.core with i2cbf := store l.core.i2cbf i (load l.outBuf l.ap1 n)},
              ap1 := l.ap1 + n, cmdCnt := l.cmdCnt - BitVec.ofNat 8 n} := by
  induction n generalizing i l with
  | zero => simp [fillBuf]
  | succ n ih =>
    rw [fillBuf,ih,ofNat_add_one]
    simp only [skip,countCmd,xautodat1,load_succ,store_cons,Pass.mk.injEq,true_and,and_true]
    exact ⟨by omega,by bv_omega⟩

theorem copyBuf_eq (n i : ℕ) (l : Pass σ) :
    copyBuf n i l =
      {l with inBuf := store l.inBuf l.ap2 (load l.core.i2cbf i n),
              ap2 := l.ap2 + n, retCnt := l.retCnt + BitVec.ofNat 8 n} := by
  induction n generalizing i l with
  | zero => simp [copyBuf]
  | succ n ih =>
    rw [copyBuf,ih,ofNat_add_one]
    simp only [put,countRet,load_succ,store_cons,Pass.mk.injEq,true_and,and_true]
    exact ⟨by omega,by bv_omega⟩

theorem rest_after (l : Pass σ) (e : Effect σ) {k : ℕ} (hk : k ≤ l.cmdCnt.toNat) :
    rest (after l e k) = (rest l).drop k := by
  have hc : (l.cmdCnt - BitVec.ofNat 8 k).toNat = l.cmdCnt.toNat - k := by bv_omega
  simp only [rest,after,hc,load_drop _ _ hk]

theorem rest_one {l : Pass σ} (h : ¬ l.cmdCnt < 1) :
    rest l = l.outBuf l.ap1 :: (rest l).drop 1 := by
  have hc : 1 ≤ l.cmdCnt.toNat := by bv_omega
  rw [rest,load_drop _ _ hc,← load_succ,Nat.sub_add_cancel hc]

theorem rest_two {l : Pass σ} (h : ¬ l.cmdCnt < 2) :
    rest l = l.outBuf l.ap1 :: l.outBuf (l.ap1+1) :: (rest l).drop 2 := by
  have hc : 2 ≤ l.cmdCnt.toNat := by bv_omega
  rw [rest,load_drop _ _ hc,← load_succ,← load_succ,Nat.sub_add_cancel hc]

theorem operand₁_ok (f : Byte → Cmd) {l : Pass σ} (h : ¬ l.cmdCnt < 1) :
    operand₁ f (rest l) = .ok (f (l.outBuf l.ap1),(rest l).drop 1) := by
  conv_lhs => rw [rest_one h]
  rfl

theorem operand₁_error (f : Byte → Cmd) {l : Pass σ} (h : l.cmdCnt < 1) :
    operand₁ f (rest l) = .error .malformed := by
  have hl : (rest l).length = 0 := by
    rw [rest_length]
    bv_omega
  rw [List.length_eq_zero_iff.mp hl]
  rfl

theorem operand₂_ok (f : Byte → Byte → Cmd) {l : Pass σ} (h : ¬ l.cmdCnt < 2) :
    operand₂ f (rest l) = .ok (f (l.outBuf l.ap1) (l.outBuf (l.ap1+1)),(rest l).drop 2) := by
  conv_lhs => rw [rest_two h]
  rfl

theorem operand₂_error (f : Byte → Byte → Cmd) {l : Pass σ} (h : l.cmdCnt < 2) :
    operand₂ f (rest l) = .error .malformed := by
  have hl : (rest l).length < 2 := by
    rw [rest_length]
    bv_omega
  rcases he : rest l with _ | ⟨x,_ | ⟨y,p⟩⟩
  · rfl
  · rfl
  · rw [he] at hl
    simp only [List.length_cons] at hl
    omega

/-- What a command does: it is well formed and has its effect, or it is discarded. -/
def Refines (b : Board σ) (op : Op) (l : Pass σ) : Prop :=
  (∃ c k, k ≤ l.cmdCnt.toNat ∧ operands op (rest l) = .ok (c,(rest l).drop k) ∧
      exec b op l = after l (c.run b l.core) k) ∨
    operands op (rest l) = .error .malformed ∧ Discarded l (exec b op l)

theorem Discarded.of_abort (l : Pass σ) : Discarded l l.abort := ⟨l.ap1,l.cmdCnt,rfl⟩

theorem refines_simple (b : Board σ) (l : Pass σ) {op : Op} {c : Cmd}
    (ho : ∀ p, operands op p = .ok (c,p)) (he : exec b op l = after l (c.run b l.core) 0) :
    Refines b op l :=
  Or.inl ⟨c,0,Nat.zero_le _,by rw [ho,List.drop_zero],he⟩

theorem refines_one (b : Board σ) (l : Pass σ) {op : Op} {f : Byte → Cmd}
    (ho : operands op = operand₁ f) (hd : l.cmdCnt < 1 → exec b op l = l.abort)
    (he : ¬ l.cmdCnt < 1 → exec b op l = after l ((f (l.outBuf l.ap1)).run b l.core) 1) :
    Refines b op l := by
  by_cases h : l.cmdCnt < 1
  · exact Or.inr ⟨by rw [ho,operand₁_error f h],by rw [hd h]; exact Discarded.of_abort l⟩
  · exact Or.inl ⟨f (l.outBuf l.ap1),1,by bv_omega,by rw [ho,operand₁_ok f h],he h⟩

theorem refines_two (b : Board σ) (l : Pass σ) {op : Op} {f : Byte → Byte → Cmd}
    (ho : operands op = operand₂ f) (hd : l.cmdCnt < 2 → exec b op l = l.abort)
    (he : ¬ l.cmdCnt < 2 →
      exec b op l = after l ((f (l.outBuf l.ap1) (l.outBuf (l.ap1+1))).run b l.core) 2) :
    Refines b op l := by
  by_cases h : l.cmdCnt < 2
  · exact Or.inr ⟨by rw [ho,operand₂_error f h],by rw [hd h]; exact Discarded.of_abort l⟩
  · exact Or.inl ⟨f (l.outBuf l.ap1) (l.outBuf (l.ap1+1)),2,by bv_omega,
      by rw [ho,operand₂_ok f h],he h⟩

theorem refines_regWrite (b : Board σ) (l : Pass σ) : Refines b .regWrite l := by
  refine refines_two b l rfl (fun h => ?_) fun h => ?_ <;> rw [exec,cmdRegWrite]
  · exact if_pos h
  · rw [if_neg h]
    simp [after,Cmd.run,Effect.ofWrites,setSfrs,afterPins,Pass.portRead,Pass.setSfr,emit,skip,
      countCmd,xautodat1,Pass.portValue,portValue]

theorem refines_regRead (b : Board σ) (l : Pass σ) : Refines b .regRead l := by
  refine refines_one b l rfl (fun h => ?_) fun h => ?_ <;> rw [exec,cmdRegRead]
  · exact if_pos h
  · rw [if_neg h]
    simp [after,Cmd.run,Effect.ofWrites,setSfrs,afterPins,Pass.portRead,Pass.setSfr,emit,skip,
      countCmd,countRet,put,xautodat1,Pass.portValue,portValue,store_cons]

theorem refines_portWrite (b : Board σ) (l : Pass σ) : Refines b .portWrite l := by
  refine refines_one b l rfl (fun h => ?_) fun h => ?_ <;> rw [exec,cmdPortWrite]
  · exact if_pos h
  · rw [if_neg h]
    simp [after,Cmd.run,Effect.ofWrites,setSfrs,afterPins,Pass.portRead,Pass.setSfr,emit,skip,
      countCmd,xautodat1,Pass.portValue,portValue]

theorem refines_portCfg (b : Board σ) (l : Pass σ) : Refines b .portCfg l := by
  refine refines_two b l rfl (fun h => ?_) fun h => ?_ <;> rw [exec,cmdPortCfg]
  · exact if_pos h
  · rw [if_neg h]
    simp [after,Cmd.run,Effect.ofWrites,setSfrs,Pass.setSfr,emit,skip,countCmd,xautodat1]

theorem refines_ifconfig (b : Board σ) (l : Pass σ) : Refines b .ifconfig l := by
  refine refines_one b l rfl (fun h => ?_) fun h => ?_ <;> rw [exec,cmdIfconfig]
  · exact if_pos h
  · rw [if_neg h]
    simp [after,Cmd.run,skip,countCmd,xautodat1]

theorem exec_i2cStatus (b : Board σ) (l : Pass σ) :
    exec b .i2cStatus l = after l (Cmd.i2cStatus.run b l.core) 0 := by
  simp [exec,cmdI2cStatus,after,Cmd.run,statusBytes,put,countRet,store_cons]

theorem foldl_setSfr (ws : List (Sfr × Byte)) (l : Pass σ) :
    ws.foldl (fun l w => l.setSfr w.1 w.2) l = after l (Effect.ofWrites l.core ws) 0 := by
  induction ws generalizing l with
  | nil => simp [after,Effect.ofWrites,setSfrs]
  | cons w ws ih =>
    rw [List.foldl_cons,ih]
    simp [after,Effect.ofWrites,setSfrs,Pass.setSfr,emit]

theorem setMode_eq (b : Board σ) (mode : Byte) (ws : List (Sfr × Byte)) (l : Pass σ) :
    setMode b mode (ws.foldl (fun l w => l.setSfr w.1 w.2) l) =
      after l (runStart b l.core ws mode) 0 := by
  rw [foldl_setSfr]
  simp [setMode,after,runStart,Effect.ofWrites,setSfrs,afterPins,Pass.portRead,Pass.setSfr,emit,
    Pass.portValue,portValue,List.foldl_append]

theorem i2cOperands_error {l : Pass σ} (h : l.cmdCnt < 2) :
    readOperands (rest l) = .error .malformed ∧ writeOperands (rest l) = .error .malformed := by
  have ho := operand₂_error Cmd.i2cRead h
  rcases hr : rest l with _ | ⟨x,_ | ⟨y,p⟩⟩
  · exact ⟨rfl,rfl⟩
  · exact ⟨rfl,rfl⟩
  · rw [hr] at ho
    cases ho

theorem refines_i2cRead (b : Board σ) (l : Pass σ) : Refines b .i2cRead l := by
  by_cases h : l.cmdCnt < 2
  · refine Or.inr ⟨(i2cOperands_error h).1,?_⟩
    rw [exec,cmdI2cRead,if_pos h]
    exact Discarded.of_abort l
  have hr := rest_two h
  rw [Refines,exec,cmdI2cRead,if_neg h]
  by_cases hl : i2cBufLen < (l.outBuf (l.ap1+1)).toNat
  · refine Or.inr ⟨?_,l.ap1+1+1,l.cmdCnt-2,if_pos hl⟩
    rw [hr]
    exact if_pos hl
  · refine Or.inl ⟨.i2cRead (l.outBuf l.ap1) (l.outBuf (l.ap1+1)),2,by bv_omega,?_,?_⟩
    · conv_lhs => rw [hr]
      exact if_neg hl
    · refine (if_neg hl).trans ?_
      simp only [xautodat1,skip,countCmd,Cmd.run,runRead,emit]
      by_cases hk : (b.i2cRead (l.outBuf l.ap1) (l.outBuf (l.ap1+1)).toNat l.core.i2cbf
          l.core.world).1 = true
      · simp only [hk,if_true]
        rw [copyBuf_eq]
        simp [after]
      · simp only [hk,Bool.false_eq_true,if_false]
        simp [after]

theorem refines_i2cWrite (b : Board σ) (l : Pass σ) : Refines b .i2cWrite l := by
  by_cases h : l.cmdCnt < 2
  · refine Or.inr ⟨(i2cOperands_error h).2,?_⟩
    rw [exec,cmdI2cWrite,if_pos h]
    exact Discarded.of_abort l
  have hr := rest_two h
  have hc : l.cmdCnt - 2 < l.outBuf (l.ap1+1) ↔
      ((rest l).drop 2).length < (l.outBuf (l.ap1+1)).toNat := by
    rw [List.length_drop,rest_length]
    bv_omega
  rw [Refines,exec,cmdI2cWrite,if_neg h]
  by_cases hl : i2cBufLen < (l.outBuf (l.ap1+1)).toNat ∨ l.cmdCnt - 2 < l.outBuf (l.ap1+1)
  · refine Or.inr ⟨?_,l.ap1+1+1,l.cmdCnt-2,if_pos hl⟩
    rw [hr]
    exact if_pos (by rwa [hc] at hl)
  · have hn : 2 + (l.outBuf (l.ap1+1)).toNat ≤ l.cmdCnt.toNat := by
      rw [not_or] at hl
      bv_omega
    have hd : ((rest l).drop 2).take (l.outBuf (l.ap1+1)).toNat =
        load l.outBuf (l.ap1+1+1) (l.outBuf (l.ap1+1)).toNat := by
      rw [rest,load_drop _ _ (by omega),load_take _ _ (by omega)]
    have hap : l.ap1+1+1+(l.outBuf (l.ap1+1)).toNat = l.ap1+(2+(l.outBuf (l.ap1+1)).toNat) := by
      omega
    have hcc : l.cmdCnt-2-l.outBuf (l.ap1+1) =
        l.cmdCnt-BitVec.ofNat 8 (2+(l.outBuf (l.ap1+1)).toNat) := by
      bv_omega
    refine Or.inl ⟨.i2cWrite (l.outBuf l.ap1)
      (((rest l).drop 2).take (l.outBuf (l.ap1+1)).toNat),2+(l.outBuf (l.ap1+1)).toNat,hn,?_,?_⟩
    · conv_lhs => rw [hr]
      rw [← List.drop_drop]
      exact if_neg (by rwa [hc] at hl)
    · refine (if_neg hl).trans ?_
      rw [fillBuf_eq,hd]
      simp only [xautodat1,skip,countCmd,load_store_load,Cmd.run,runWrite,emit]
      by_cases hk : (b.i2cWrite (l.outBuf l.ap1)
          (load l.outBuf (l.ap1+1+1) (l.outBuf (l.ap1+1)).toNat) l.core.world).1 = true
      · simp only [hk,if_true]
        simp [after,hap,← hcc]
      · simp only [hk,Bool.false_eq_true,if_false]
        simp [after,hap,← hcc]

theorem exec_refines (b : Board σ) (op : Op) (l : Pass σ) : Refines b op l := by
  cases op with
  | i2cRead => exact refines_i2cRead b l
  | i2cWrite => exact refines_i2cWrite b l
  | i2cStatus => exact refines_simple b l (fun _ => rfl) (exec_i2cStatus b l)
  | regWrite => exact refines_regWrite b l
  | regRead => exact refines_regRead b l
  | portWrite => exact refines_portWrite b l
  | portRead =>
    refine refines_simple b l (fun _ => rfl) ?_
    simp [exec,cmdPortRead,after,Cmd.run,afterPins,Pass.portRead,put,countRet,Pass.portValue,
      portValue,store_cons]
  | portCfg => exact refines_portCfg b l
  | ifconfig => exact refines_ifconfig b l
  | ep6inStart =>
    exact refines_simple b l (fun _ => rfl) (setMode_eq b modeStart [(.ifconfig,l.core.valIfconfig),
      (.fiforeset,0x06),(.ep6fifocfg,0x0c)] l)
  | ep6inStop =>
    exact refines_simple b l (fun _ => rfl) (foldl_setSfr [(.ep6fifocfg,0x04)] l)
  | ep4inStart =>
    exact refines_simple b l (fun _ => rfl) (setMode_eq b modeStart [(.ifconfig,l.core.valIfconfig),
      (.fiforeset,0x04),(.ep4fifocfg,0x0c)] l)
  | ep4inStop =>
    exact refines_simple b l (fun _ => rfl) (foldl_setSfr [(.ep4fifocfg,0x04)] l)
  | ep2outStart =>
    exact refines_simple b l (fun _ => rfl) (setMode_eq b modeStart [(.ifconfig,l.core.valIfconfig),
      (.fiforeset,0x02),(.outpktend,0x82),(.outpktend,0x82),(.outpktend,0x82),(.outpktend,0x82),
      (.ep2fifocfg,0x10)] l)
  | ep2outStop =>
    exact refines_simple b l (fun _ => rfl) (foldl_setSfr [(.ep2fifocfg,0x04)] l)
  | modeIdle => exact refines_simple b l (fun _ => rfl) (setMode_eq b MainLoop.modeIdle [] l)
  | none => exact refines_simple b l (c := .unknown) (fun _ => rfl) (by simp [exec,after,Cmd.run])

def fetch (l : Pass σ) : Pass σ := {(l.countCmd 1).skip 1 with turns := l.turns + 1}

theorem rest_fetch {l : Pass σ} (h : l.cmdCnt ≠ 0) : rest l = l.xautodat1 :: rest (fetch l) := by
  have hc : 1 ≤ l.cmdCnt.toNat := by bv_omega
  have hs : (l.cmdCnt - 1).toNat = l.cmdCnt.toNat - 1 := by bv_omega
  simp only [rest,fetch,countCmd,skip,xautodat1,hs]
  rw [← load_succ,Nat.sub_add_cancel hc]

/-- Everything a turn of the loop can do: it executes the next command of the packet,
or it discards the rest. -/
theorem turn_cases (b : Board σ) {l : Pass σ} (h : l.cmdCnt ≠ 0) :
    (∃ c k, k < l.cmdCnt.toNat ∧
        commands.next (rest l) = .ok (c,rest (after (fetch l) (c.run b l.core) k)) ∧
        turn b (l.countCmd 1) = after (fetch l) (c.run b l.core) k) ∨
      commands.next (rest l) = .error .malformed ∧ Discarded (fetch l) (turn b (l.countCmd 1)) := by
  have hc : (fetch l).cmdCnt.toNat = l.cmdCnt.toNat - 1 := by
    simp only [fetch,countCmd,skip]
    bv_omega
  have hpos : l.cmdCnt.toNat ≠ 0 := by bv_omega
  rw [rest_fetch h]
  rcases exec_refines b (Op.ofByte l.xautodat1) (fetch l) with ⟨c,k,hk,ho,he⟩ | ⟨ho,hd⟩
  · refine Or.inl ⟨c,k,by omega,?_,he⟩
    rw [rest_after _ _ hk]
    exact ho
  · exact Or.inr ⟨ho,hd⟩

theorem turn_packet (b : Board σ) {l : Pass σ} (h : l.cmdCnt ≠ 0) :
    (turn b (l.countCmd 1)).outBuf = l.outBuf ∧
      (turn b (l.countCmd 1)).cmdCnt.toNat < l.cmdCnt.toNat := by
  rcases turn_cases b h with ⟨c,k,hk,_,he⟩ | ⟨_,k,n,he⟩
  · rw [he]
    refine ⟨rfl,?_⟩
    simp only [after,fetch,countCmd,skip]
    bv_omega
  · rw [he]
    refine ⟨rfl,?_⟩
    change 0 < l.cmdCnt.toNat
    bv_omega

structure Ran (l l' : Pass σ) (e : Effect σ) (s : Stop) : Prop where
  core : l'.core = e.core
  log : l'.log = l.log ++ e.log
  inBuf : l'.inBuf = store l.inBuf l.ap2 e.answer
  retCnt : l'.retCnt = l.retCnt + BitVec.ofNat 8 e.answer.length
  ap1 : s = .done → l'.ap1 = l.ap1 + l.cmdCnt.toNat
  aborted : l'.aborted = (l.aborted || decide (s = .malformed))

theorem Ran.cons {l l' : Pass σ} {e e' : Effect σ} {s : Stop} {k : ℕ} (hk : k < l.cmdCnt.toNat)
    (h : Ran (after (fetch l) e k) l' e' s) :
    Ran l l' ⟨e'.core,e.log ++ e'.log,e.answer ++ e'.answer⟩ s where
  core := h.core
  log := by
    rw [h.log,← List.append_assoc]
    rfl
  inBuf := by
    rw [h.inBuf,store_append]
    rfl
  retCnt := by
    rw [h.retCnt,List.length_append,BitVec.ofNat_add,← BitVec.add_assoc]
    rfl
  ap1 hs := by
    have hc : (l.cmdCnt - 1 - BitVec.ofNat 8 k).toNat = l.cmdCnt.toNat - 1 - k := by bv_omega
    rw [h.ap1 hs]
    simp only [after,fetch,countCmd,skip,hc]
    omega
  aborted := h.aborted

theorem Ran.discarded (b : Board σ) {l l₁ : Pass σ} (h : Discarded (fetch l) l₁) (n : ℕ) :
    Ran l (loop b (n+1) l₁) ⟨l.core,[],[]⟩ .malformed := by
  obtain ⟨k,c,rfl⟩ := h
  exact ⟨rfl,(List.append_nil _).symm,rfl,(BitVec.add_zero _).symm,nofun,(Bool.or_true _).symm⟩

/-- The command loop runs the commands its bytes decode to. The induction is on the
fuel, which `cmd_cnt` bounds. -/
theorem loop_ran (b : Board σ) (fuel : ℕ) (l : Pass σ) (hf : l.cmdCnt.toNat < fuel) :
    Ran l (loop b fuel l) (runAll b l.core (commands.decode (rest l)).1)
      (commands.decode (rest l)).2 := by
  induction fuel generalizing l with
  | zero => omega
  | succ fuel ih =>
    by_cases h : l.cmdCnt = 0
    · have hr : rest l = [] := by simp [rest,h]
      rw [hr,commands.decode_error (e := .done) rfl,loop,if_pos h]
      exact ⟨rfl,(List.append_nil _).symm,rfl,(BitVec.add_zero _).symm,by simp [h,countCmd],
        (Bool.or_false _).symm⟩
    · rw [loop,if_neg h]
      rcases turn_cases b h with ⟨c,k,hk,hn,he⟩ | ⟨hn,hd⟩
      · rw [commands.decode_ok hn,he]
        refine Ran.cons hk (ih _ ?_)
        simp only [after,fetch,countCmd,skip]
        bv_omega
      · rw [commands.decode_error hn]
        cases fuel with
        | zero => bv_omega
        | succ n => exact Ran.discarded b hd n

def packet (fw : Fw σ) : List Byte := load fw.outBuf 0 fw.outBc.toNat

/-- A pass runs exactly the commands of its packet; 256 turns are enough for it. -/
theorem pass_ran (b : Board σ) (fw : Fw σ) :
    Ran (start fw) (pass b fw) (runAll b fw.core (commands.decode (packet fw)).1)
      (commands.decode (packet fw)).2 :=
  loop_ran b 256 (start fw) fw.outBc.isLt

end Command
end AkbPcr20x
