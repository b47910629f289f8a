import AkbPcr20x.I2cEngine
import AkbPcr20x.Transducer

/-! The I2C bus as an observer of the register accesses sees it. The observer knows
the controller and not the engine: a value of I2CS counts only where the controller
gives it a meaning, behind a START, behind a byte, and behind the DONE of a byte. -/
namespace AkbPcr20x
namespace I2cBus

open MainLoop I2cEngine Transducer

/-- What happens on the bus. `sent` and `got` are the accesses to I2DAT; `hung` is a
byte without a DONE in as many reads of I2CS as the wait limit allows. -/
inductive BusEv
  | start
  | sent (v : Byte)
  | got (v : Byte)
  | ack
  | nack
  | berr
  | hung
  | lastrd
  | stop
  deriving DecidableEq

/-- What the next value of I2CS tells. -/
inductive Phase
  | off
  | started
  | clear
  | busy (turns : ℕ)
  | done
  | checked

def observeCs (v : Byte) : Phase → Phase × List BusEv
  | .started => if v &&& bmBerr ≠ 0 then (.off,[.berr]) else (.clear,[])
  | .busy turns =>
    if v &&& bmDone ≠ 0 then (.done,[])
    else if turns + 1 = i2cWaitLimit then (.off,[.hung])
    else (.busy (turns + 1),[])
  | .done => if v &&& bmBerr ≠ 0 then (.off,[.berr]) else (.checked,[])
  | .checked => (.clear,if v &&& bmAck ≠ 0 then [.ack] else [.nack])
  | p => (p,[])

/-- Behind a STOP nothing on the bus is of interest until the next START. -/
def observe (p : Phase) : Access → Phase × List BusEv
  | .readCs v => observeCs v p
  | .orCs bit _ =>
    if bit = bmStart then (.started,[.start])
    else if bit = bmStop then (.off,[.stop])
    else (p,[.lastrd])
  | .writeDat v => (.busy 0,[.sent v])
  | .readDat v =>
    match p with
    | .off => (.off,[.got v])
    | _ => (.busy 0,[.got v])

/-- The bus events between two states of the controller. -/
def events (s s' : Ctl) : List BusEv := (run observe .off (s'.trace.drop s.trace.length)).2

/-- The direction of a call; each one has its own counters. -/
inductive Dir
  | read
  | write
  deriving DecidableEq

def bump (dir : Dir) (b t : ℕ) (d : Diag) : Diag :=
  match dir with
  | .read => {d with berrReadCnt := d.berrReadCnt + BitVec.ofNat 16 b,
                     timeoutReadCnt := d.timeoutReadCnt + BitVec.ofNat 16 t}
  | .write => {d with berrWriteCnt := d.berrWriteCnt + BitVec.ofNat 16 b,
                      timeoutWriteCnt := d.timeoutWriteCnt + BitVec.ofNat 16 t}

@[simp] theorem bump_zero (dir : Dir) (d : Diag) : bump dir 0 0 d = d := by
  cases dir <;> simp [bump]

theorem bump_bump (dir : Dir) (b t b' t' : ℕ) (d : Diag) :
    bump dir b' t' (bump dir b t d) = bump dir (b+b') (t+t') d := by
  cases dir <;> simp [bump,BitVec.ofNat_add,BitVec.add_assoc]

/-- From `s` to `s'` the bus goes from `p` to `p'` with the events `es`, and the
counters of `dir` grow by `b` and `t`. -/
structure Moves (dir : Dir) (b t : ℕ) (s s' : Ctl) (p p' : Phase) (es : List BusEv) : Prop where
  trace : ∃ as, s'.trace = s.trace ++ as ∧ run observe p as = (p',es)
  cancel : s'.cancel = s.cancel
  diag : s'.diag = bump dir b t s.diag

variable {dir : Dir} {b t b' t' : ℕ} {s s' s'' : Ctl} {p p' p'' : Phase} {es es' : List BusEv}

theorem Moves.refl (dir : Dir) (s : Ctl) (p : Phase) : Moves dir 0 0 s s p p [] where
  trace := Grows.refl observe s.trace p
  cancel := rfl
  diag := (bump_zero dir s.diag).symm

theorem Moves.trans (h : Moves dir b t s s' p p' es) (h' : Moves dir b' t' s' s'' p' p'' es') :
    Moves dir (b+b') (t+t') s s'' p p'' (es ++ es') where
  trace := Grows.trans h.trace h'.trace
  cancel := h'.cancel.trans h.cancel
  diag := by rw [h'.diag,h.diag,bump_bump]

theorem Moves.then (h : Moves dir b t s s' p p' es) (h' : Moves dir 0 0 s' s'' p' p'' es') :
    Moves dir b t s s'' p p'' (es ++ es') :=
  h.trans h'

theorem Moves.count (h : Moves dir 0 0 s s' p p' es) (ht : s''.trace = s'.trace)
    (hc : s''.cancel = s'.cancel) (hd : s''.diag = bump dir b t s'.diag) :
    Moves dir b t s s'' p p' es := by
  have hm : Moves dir b t s' s'' p' p' [] := ⟨⟨[],by rw [ht,List.append_nil],rfl⟩,hc,hd⟩
  have hh := h.trans hm
  rwa [Nat.zero_add,Nat.zero_add,List.append_nil] at hh

theorem Moves.events_eq (h : Moves dir b t s s' .off p' es) : events s s' = es :=
  Grows.events_eq h.trace

theorem moves_emit (dir : Dir) (s : Ctl) (p : Phase) (a : Access) :
    Moves dir 0 0 s (s.emit a) p (observe p a).1 (observe p a).2 where
  trace := Grows.emit observe s.trace p a
  cancel := rfl
  diag := (bump_zero dir s.diag).symm

theorem moves_readCs (dir : Dir) (s : Ctl) (p : Phase) :
    Moves dir 0 0 s (readCs s).2 p (observeCs (readCs s).1 p).1 (observeCs (readCs s).1 p).2 where
  trace := Grows.emit observe s.trace p (.readCs (readCs s).1)
  cancel := rfl
  diag := (bump_zero dir s.diag).symm

theorem moves_orCs (dir : Dir) (bit : Byte) (s : Ctl) (p : Phase) :
    Moves dir 0 0 s (orCs bit s) p (observe p (.orCs bit 0)).1 (observe p (.orCs bit 0)).2 where
  trace := Grows.emit observe s.trace p (.orCs bit (s.i2cs s.csReads))
  cancel := rfl
  diag := (bump_zero dir s.diag).symm

theorem moves_start (dir : Dir) (s : Ctl) (p : Phase) :
    Moves dir 0 0 s (orCs bmStart s) p .started [.start] :=
  moves_orCs dir bmStart s p

theorem moves_lastrd (dir : Dir) (s : Ctl) (p : Phase) :
    Moves dir 0 0 s (orCs bmLastrd s) p p [.lastrd] :=
  moves_orCs dir bmLastrd s p

theorem moves_writeDat (dir : Dir) (v : Byte) (s : Ctl) (p : Phase) :
    Moves dir 0 0 s (writeDat v s) p (.busy 0) [.sent v] :=
  moves_emit dir s p (.writeDat v)

/-- A byte taken while a transfer is under way clocks the next one. -/
theorem moves_readDat (dir : Dir) (s : Ctl) {p : Phase} (hp : p ≠ .off) :
    Moves dir 0 0 s (readDat s).2 p (.busy 0) [.got (readDat s).1] where
  trace := by
    refine ⟨[.readDat (readDat s).1],rfl,?_⟩
    rw [run_singleton]
    cases p <;> first | exact absurd rfl hp | rfl
  cancel := rfl
  diag := (bump_zero dir s.diag).symm

theorem moves_readDat_off (dir : Dir) (s : Ctl) :
    Moves dir 0 0 s (readDat s).2 .off .off [.got (readDat s).1] where
  trace := ⟨[.readDat (readDat s).1],rfl,rfl⟩
  cancel := rfl
  diag := (bump_zero dir s.diag).symm

theorem observeCs_done {v : Byte} (h : v &&& bmDone ≠ 0) (turns : ℕ) :
    observeCs v (.busy turns) = (.done,[]) := if_pos h

theorem observeCs_hung {v : Byte} (h : v &&& bmDone = 0) {turns : ℕ}
    (ht : turns + 1 = i2cWaitLimit) : observeCs v (.busy turns) = (.off,[.hung]) := by
  rw [observeCs,if_neg (not_not.mpr h),if_pos ht]

theorem observeCs_busy {v : Byte} (h : v &&& bmDone = 0) {turns : ℕ}
    (ht : turns + 1 ≠ i2cWaitLimit) : observeCs v (.busy turns) = (.busy (turns+1),[]) := by
  rw [observeCs,if_neg (not_not.mpr h),if_neg ht]

theorem waitDoneLoop_next {limit : ℕ} {s : Ctl} (hc : s.cancel = false)
    (hd : (readCs s).1 &&& bmDone = 0) :
    waitDoneLoop (limit+1) s = waitDoneLoop limit (readCs s).2 := by
  rw [waitDoneLoop]
  exact if_pos ⟨hd,hc⟩

theorem waitDoneLoop_done {limit : ℕ} {s : Ctl} (hc : s.cancel = false)
    (hd : (readCs s).1 &&& bmDone ≠ 0) :
    waitDoneLoop (limit+1) s = (true,(readCs s).2) := by
  rw [waitDoneLoop]
  refine (if_neg fun h => hd h.1).trans ?_
  rw [hc,Bool.not_false]

/-- The reads of a wait for DONE: it ends with a DONE or with the limit. -/
theorem moves_waitDoneLoop (dir : Dir) (limit turns : ℕ) (s : Ctl) (hc : s.cancel = false)
    (hl : turns + limit + 1 = i2cWaitLimit) :
    Moves dir 0 0 s (waitDoneLoop (limit+1) s).2 (.busy turns)
      (if (waitDoneLoop (limit+1) s).1 then .done else .off)
      (if (waitDoneLoop (limit+1) s).1 then [] else [.hung]) := by
  induction limit generalizing turns s with
  | zero =>
    have hr := moves_readCs dir s (.busy turns)
    by_cases hd : (readCs s).1 &&& bmDone = 0
    · rw [observeCs_hung hd hl] at hr
      rw [waitDoneLoop_next hc hd]
      exact hr
    · rw [observeCs_done hd] at hr
      rw [waitDoneLoop_done hc hd]
      exact hr
  | succ limit ih =>
    have hr := moves_readCs dir s (.busy turns)
    by_cases hd : (readCs s).1 &&& bmDone = 0
    · rw [observeCs_busy hd (by omega)] at hr
      rw [waitDoneLoop_next hc hd]
      exact hr.then (ih (turns+1) (readCs s).2 hc (by omega))
    · rw [observeCs_done hd] at hr
      rw [waitDoneLoop_done hc hd]
      exact hr

theorem moves_waitDone (dir : Dir) (s : Ctl) (hc : s.cancel = false) :
    Moves dir 0 0 s (waitDone s).2 (.busy 0) (if (waitDone s).1 then .done else .off)
      (if (waitDone s).1 then [] else [.hung]) :=
  moves_waitDoneLoop dir 59999 0 s hc rfl

theorem moves_waitStopLoop (dir : Dir) (limit : ℕ) (s : Ctl) :
    Moves dir 0 0 s (waitStopLoop limit s) .off .off [] := by
  induction limit generalizing s with
  | zero => exact Moves.refl dir s .off
  | succ limit ih =>
    have hr : Moves dir 0 0 s (readCs s).2 .off .off [] := moves_readCs dir s .off
    simp only [waitStopLoop]
    split_ifs
    · exact hr.then (ih _)
    · exact hr

theorem moves_stop (dir : Dir) (s : Ctl) (p : Phase) :
    Moves dir 0 0 s (waitStop (orCs bmStop s)) p .off [.stop] :=
  (moves_orCs dir bmStop s p).then (moves_waitStopLoop dir i2cWaitLimit _)

theorem waitDoneLoop_csReads (limit : ℕ) (s : Ctl) :
    (waitDoneLoop limit s).2.csReads ≤ s.csReads + limit := by
  induction limit generalizing s with
  | zero => exact le_rfl
  | succ limit ih =>
    simp only [waitDoneLoop]
    split_ifs
    · have hh := ih (readCs s).2
      have hr : (readCs s).2.csReads = s.csReads + 1 := rfl
      omega
    · exact Nat.add_le_add_left (Nat.le_add_left 1 limit) s.csReads

theorem waitStopLoop_csReads (limit : ℕ) (s : Ctl) :
    (waitStopLoop limit s).csReads ≤ s.csReads + limit := by
  induction limit generalizing s with
  | zero => exact le_rfl
  | succ limit ih =>
    simp only [waitStopLoop]
    split_ifs
    · have hh := ih (readCs s).2
      have hr : (readCs s).2.csReads = s.csReads + 1 := rfl
      omega
    · exact Nat.add_le_add_left (Nat.le_add_left 1 limit) s.csReads

end I2cBus
end AkbPcr20x
