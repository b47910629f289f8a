import AkbPcr20x.I2cCall
import Mathlib.Data.List.DropRight

/-! How calls of the I2C engine end. Every call returns within its budgets, what the
result says about the bus, and when the bus is free for the next call. -/
namespace AkbPcr20x
namespace I2cCall

open Memory MainLoop I2cEngine I2cBus

variable {A : Ending → List BusEv → Prop} {tries berrs : ℕ} {r : Bool} {es : List BusEv}

/-- The last attempt of a call, and how much of the budgets the others left. -/
structure Last (A : Ending → List BusEv → Prop) (berrs : ℕ) (r : Bool) (es pre : List BusEv)
    (e : Ending) (t : List BusEv) : Prop where
  split : es = pre ++ .start::t
  attempt : A e (.start::t)
  tail : Tail e t
  exit : ∃ tries', exitOf tries' (berrs + pre.count .berr) e = .ret r
  budget : berrs + pre.count .berr < i2cBerrMaxRetry
  hung : .hung ∉ pre

theorem Call.last (hA : ∀ e es, A e es → Shape e es) (h : Call A tries berrs r es)
    (hb : berrs < i2cBerrMaxRetry) : ∃ pre e t, Last A berrs r es pre e t := by
  induction h with
  | ret ha he =>
    obtain ⟨t,rfl,ht⟩ := hA _ _ ha
    exact ⟨[],_,t,rfl,ha,ht,⟨_,he⟩,hb,List.not_mem_nil⟩
  | @again tries berrs tries' berrs' e es es' r ha he hc ih =>
    have hs := hA _ _ ha
    have hx := exitOf_again he
    have hh : .hung ∉ es := by
      rw [hs.hung_iff]
      rintro rfl
      cases he
    have hn : berrs + es.count .berr = berrs' := by
      rw [hs.count_berr]
      rcases hx with ⟨rfl,_,hb,_⟩ | ⟨rfl,_,_,hb⟩ <;> rw [hb] <;> rfl
    obtain ⟨pre,e',t,hl⟩ := ih (by omega)
    have hp : berrs + (es ++ pre).count .berr = berrs' + pre.count .berr := by
      rw [List.count_append,← Nat.add_assoc,hn]
    refine ⟨es ++ pre,e',t,by rw [hl.split,List.append_assoc],hl.attempt,hl.tail,?_,?_,?_⟩
    · rw [hp]
      exact hl.exit
    · rw [hp]
      exact hl.budget
    · rw [List.mem_append,not_or]
      exact ⟨hh,hl.hung⟩

theorem Call.berrs_le (hA : ∀ e es, A e es → Shape e es) (h : Call A tries berrs r es)
    (hb : berrs < i2cBerrMaxRetry) : berrs + es.count .berr ≤ i2cBerrMaxRetry := by
  obtain ⟨pre,e,t,hl⟩ := h.last hA hb
  have ht := hl.tail.berrs
  have hp := hl.budget
  have he : e.berrs ≤ 1 := by cases e <;> decide
  rw [hl.split,List.count_append,List.count_cons_of_ne (by decide),ht]
  omega

/-- Every START but the first one is paid for out of one of the two budgets. -/
theorem Call.starts_le (hA : ∀ e es, A e es → Shape e es) (h : Call A tries berrs r es)
    (hb : berrs < i2cBerrMaxRetry) :
    berrs + es.count .start ≤ (tries - 1) + i2cBerrMaxRetry := by
  induction h with
  | ret ha he =>
    obtain ⟨t,rfl,ht⟩ := hA _ _ ha
    rw [List.count_cons_self,List.count_eq_zero_of_not_mem ht.start]
    omega
  | again ha he hc ih =>
    obtain ⟨t,rfl,ht⟩ := hA _ _ ha
    have hx := exitOf_again he
    have hh := ih (by omega)
    rw [List.count_append,List.count_cons_self,List.count_eq_zero_of_not_mem ht.start]
    omega

theorem Last.hung_iff {e : Ending} {pre t : List BusEv} (h : Last A berrs r es pre e t) :
    .hung ∈ es ↔ e = .hung := by
  simp [h.split,h.hung,h.tail.hung]

/-- A limit is reached in the last attempt, by its wait or by its bus error. -/
theorem Last.limit_iff {e : Ending} {pre t : List BusEv} (h : Last A berrs r es pre e t) :
    Limit berrs es ↔ e = .hung ∨ e = .lost := by
  obtain ⟨tries,hx⟩ := h.exit
  have hb := h.budget
  have hc : es.count .berr = pre.count .berr + e.berrs := by
    rw [h.split,List.count_append,List.count_cons_of_ne (by decide),h.tail.berrs]
  rw [Limit,h.hung_iff,hc,← Nat.add_assoc]
  cases e with
  | hung => simp
  | lost =>
    simp only [exitOf] at hx
    split_ifs at hx with hl
    simp only [Ending.berrs,reduceCtorEq,or_true,iff_true]
    omega
  | _ =>
    simp only [Ending.berrs,reduceCtorEq,or_self,false_or,iff_false]
    omega

theorem Call.limit_false (hA : ∀ e es, A e es → Shape e es) (h : Call A tries berrs r es)
    (hb : berrs < i2cBerrMaxRetry) (hl : Limit berrs es) : r = false := by
  obtain ⟨pre,e,t,hs⟩ := h.last hA hb
  obtain ⟨tries',hx⟩ := hs.exit
  rcases hs.limit_iff.mp hl with rfl | rfl
  · exact (Exit.ret.inj hx).symm
  · simp only [exitOf] at hx
    split_ifs at hx
    exact (Exit.ret.inj hx).symm

theorem Call.start (hA : ∀ e es, A e es → Shape e es) (h : Call A tries berrs r es) :
    ∃ t, es = .start::t := by
  cases h with
  | ret ha => 
    obtain ⟨t,rfl,_⟩ := hA _ _ ha
    exact ⟨t,rfl⟩
  | again ha =>
    obtain ⟨t,rfl,_⟩ := hA _ _ ha
    exact ⟨_,rfl⟩

def lastAttempt (es : List BusEv) : List BusEv := es.rtakeWhile (· ≠ .start)

theorem lastAttempt_append (pre : List BusEv) {t : List BusEv} (h : .start ∉ t) :
    lastAttempt (pre ++ .start::t) = t := by
  have hp : ∀ e ∈ t.reverse, (decide (e ≠ BusEv.start)) = true := by
    intro e he
    rw [decide_eq_true_eq]
    rintro rfl
    exact h (List.mem_reverse.mp he)
  rw [lastAttempt,List.rtakeWhile,List.reverse_append,List.reverse_cons,List.append_assoc,
    List.takeWhile_append_of_pos hp]
  simp

/-- A STOP behind the last START, unless the bus was lost behind it. -/
def Released (es : List BusEv) : Prop := .berr ∈ lastAttempt es ∨ .stop ∈ lastAttempt es

/-- The same with a loss that only counts at the START itself. -/
def ReleasedStrict (es : List BusEv) : Prop :=
  (lastAttempt es).head? = some .berr ∨ .stop ∈ lastAttempt es

instance (es : List BusEv) : Decidable (Released es) := inferInstanceAs (Decidable (_ ∨ _))

instance (es : List BusEv) : Decidable (ReleasedStrict es) := inferInstanceAs (Decidable (_ ∨ _))

theorem Tail.berr_iff {e : Ending} {t : List BusEv} (h : Tail e t) : .berr ∈ t ↔ e = .lost := by
  rw [← List.count_pos_iff,h.berrs]
  cases e <;> decide

theorem Call.released (hA : ∀ e es, A e es → Shape e es) (h : Call A tries 0 r es) :
    (Released es ↔ .hung ∉ es) ∧
      (ReleasedStrict es ↔ (Limit 0 es → (lastAttempt es).head? = some .berr)) := by
  obtain ⟨pre,e,t,hl⟩ := h.last hA (by decide)
  have hla : lastAttempt es = t := by
    rw [hl.split,lastAttempt_append pre hl.tail.start]
  have hhead : t.head? = some .berr → e = .lost := by
    intro hd
    exact hl.tail.berr_iff.mp (List.mem_of_mem_head? hd)
  rw [Released,ReleasedStrict,hla,hl.limit_iff,hl.hung_iff,hl.tail.berr_iff,hl.tail.stop]
  cases e <;> simp_all [Ending.stopped]

theorem Call.plain_nack (hA : ∀ e es, A e es → Shape e es) (h : Call A tries 0 r es)
    (hn : .nack ∈ lastAttempt es) : r = false ∧ ¬ Limit 0 es := by
  obtain ⟨pre,e,t,hl⟩ := h.last hA (by decide)
  obtain ⟨tries',hx⟩ := hl.exit
  rw [hl.split,lastAttempt_append pre hl.tail.start,hl.tail.nack] at hn
  rw [hl.limit_iff]
  rcases hn with rfl | rfl
  · simp only [exitOf] at hx
    split_ifs at hx
    exact ⟨(Exit.ret.inj hx).symm,by decide⟩
  · exact ⟨(Exit.ret.inj hx).symm,by decide⟩

theorem exitOf_true {e : Ending} (h : exitOf tries berrs e = .ret true) : e = .complete := by
  cases e with
  | lost | refused =>
    simp only [exitOf] at h
    split_ifs at h
    cases h
  | complete => rfl
  | _ => cases h

def acked (bs : List Byte) : List BusEv := bs.flatMap fun v => [.sent v,.ack]

theorem DataEv.complete_eq {bs : List Byte} {es : List BusEv} (h : DataEv bs .complete es) :
    es = acked bs ++ [.stop] := by
  generalize he : Ending.complete = e at h
  induction h with
  | complete => rfl
  | next _ ih =>
    rw [ih he]
    rfl
  | _ => cases he

theorem WriteEv.complete_eq {a : Byte} {bs : List Byte} {es : List BusEv}
    (h : WriteEv a bs .complete es) : es = .start::(acked (a::bs) ++ [.stop]) := by
  cases h with
  | data h =>
    rw [h.complete_eq]
    rfl

theorem DataEv.nack_last {bs : List Byte} {e : Ending} {es pre post : List BusEv} {v : Byte}
    (h : DataEv bs e es) (hs : .ack::es = pre ++ .ack::.sent v::.nack::post) :
    e = .nacked ∧ post = [.stop] := by
  induction h generalizing pre with
  | next _ ih =>
    rcases pre with _ | ⟨x,_ | ⟨y,pre⟩⟩
    · simp at hs
    · simp at hs
    · simp only [List.cons_append,List.cons.injEq] at hs
      exact ih hs.2.2
  | _ =>
    rcases pre with _ | ⟨x,_ | ⟨y,_ | ⟨z,_ | ⟨w,pre⟩⟩⟩⟩ <;> simp_all

theorem WriteEv.nack_last {a : Byte} {bs : List Byte} {e : Ending} {es pre post : List BusEv}
    {v : Byte} (h : WriteEv a bs e es) (hs : es = pre ++ .ack::.sent v::.nack::post) :
    e = .nacked ∧ post = [.stop] := by
  cases h with
  | data h =>
    rcases pre with _ | ⟨x,_ | ⟨y,pre⟩⟩
    · simp at hs
    · simp at hs
    · simp only [List.cons_append,List.cons.injEq] at hs
      exact h.nack_last hs.2.2
  | _ =>
    rcases pre with _ | ⟨x,_ | ⟨y,_ | ⟨z,_ | ⟨w,pre⟩⟩⟩⟩ <;> simp_all

theorem Call.nack_last {a : Byte} {bs : List Byte} {pre post : List BusEv} {v : Byte}
    (h : Call (WriteEv a bs) tries berrs r es) (hs : es = pre ++ .ack::.sent v::.nack::post) :
    r = false ∧ post = [.stop] := by
  induction h generalizing pre with
  | ret ha he =>
    obtain ⟨rfl,hp⟩ := ha.nack_last hs
    exact ⟨(Exit.ret.inj he).symm,hp⟩
  | @again tries berrs tries' berrs' e es es' r ha he hc ih =>
    obtain ⟨t,ht⟩ := hc.start fun _ _ => WriteEv.shape
    rcases List.append_eq_append_iff.mp hs with ⟨x,_,hx⟩ | ⟨x,hx,hy⟩
    · exact ih hx
    · rw [ht] at hy
      rcases x with _ | ⟨x₁,_ | ⟨x₂,_ | ⟨x₃,x⟩⟩⟩
      · simp at hy
      · simp at hy
      · simp at hy
      · simp only [List.cons_append,List.cons.injEq] at hy
        obtain ⟨rfl,rfl,rfl,_⟩ := hy
        obtain ⟨rfl,_⟩ := ha.nack_last hx
        cases he

end I2cCall

namespace I2cOutcome

open Memory MainLoop I2cEngine I2cBus I2cCall

inductive Request
  | write (addr : Byte) (addrBuf dataBuf : List Byte)
  | read (addr : Byte) (len : ℕ) (buf : Mem Byte)

namespace Request

def dir : Request → Dir
  | .write _ _ _ => .write
  | .read _ _ _ => .read

def call : Request → Ctl → Option Bool × Ctl
  | .write addr addrBuf dataBuf, s => i2cWrite addr addrBuf dataBuf s
  | .read addr len buf, s => ((i2cRead addr len buf s).1,(i2cRead addr len buf s).2.2)

def tries : Request → ℕ
  | .write _ _ _ => 2
  | .read _ _ _ => 0

def attempt : Request → Ending → List BusEv → Prop
  | .write addr addrBuf dataBuf => WriteEv (writeAddress addr) (payload addrBuf dataBuf)
  | .read addr len _ => fun e es => ∃ ds, ReadEv (readAddress addr) len e es ds

def bus (q : Request) (s : Ctl) : List BusEv := events s (q.call s).2

theorem attempt_shape (q : Request) {e : Ending} {es : List BusEv} (h : q.attempt e es) :
    Shape e es := by
  cases q with
  | write addr addrBuf dataBuf => exact h.shape
  | read addr len buf => exact h.choose_spec.shape

theorem call_called (q : Request) (s : Ctl) : ∃ r, (q.call s).1 = some r ∧
    Called q.dir q.attempt q.tries 0 (clearCancel s) (q.call s).2 r := by
  cases q with
  | write addr addrBuf dataBuf => exact i2cWrite_called addr addrBuf dataBuf s
  | read addr len buf => exact i2cRead_called addr len buf s

/-- The specification of a call: it returns, its bus events are those of a list of
attempts, and the counters grow by what the events say. -/
theorem call_spec (q : Request) (s : Ctl) : ∃ r, (q.call s).1 = some r ∧
    Call q.attempt q.tries 0 r (q.bus s) ∧
    (q.call s).2.diag = bump q.dir ((q.bus s).count .berr)
      (if Limit 0 (q.bus s) then 1 else 0) s.diag := by
  obtain ⟨r,hr,hc⟩ := q.call_called s
  obtain ⟨es,hes,hm⟩ := hc.out
  have he : q.bus s = es := hm.events_eq
  rw [he]
  exact ⟨r,hr,hes,hm.diag⟩

end Request

/-- The ends of the two wait loops and of both functions, for every controller. -/
theorem calls_end (addr : Byte) (addrBuf dataBuf : List Byte) (len : ℕ) (buf : Mem Byte) (s : Ctl) :
    ((i2cWrite addr addrBuf dataBuf s).1.isSome ∧
      (events s (i2cWrite addr addrBuf dataBuf s).2).count .start ≤ 21 ∧
      (events s (i2cWrite addr addrBuf dataBuf s).2).count .berr ≤ i2cBerrMaxRetry) ∧
    ((i2cRead addr len buf s).1.isSome ∧
      (events s (i2cRead addr len buf s).2.2).count .start ≤ 20 ∧
      (events s (i2cRead addr len buf s).2.2).count .berr ≤ i2cBerrMaxRetry) ∧
    (waitDone s).2.csReads ≤ s.csReads + 60000 ∧ (waitStop s).csReads ≤ s.csReads + 60000 := by
  have h (q : Request) : (q.call s).1.isSome ∧
      (q.bus s).count .start ≤ (q.tries - 1) + i2cBerrMaxRetry ∧
      (q.bus s).count .berr ≤ i2cBerrMaxRetry := by
    obtain ⟨r,hr,hc,_⟩ := q.call_spec s
    have hs := hc.starts_le (fun _ _ => q.attempt_shape) (by decide)
    have hb := hc.berrs_le (fun _ _ => q.attempt_shape) (by decide)
    rw [Nat.zero_add] at hs hb
    exact ⟨by rw [hr]; rfl,hs,hb⟩
  exact ⟨h (.write addr addrBuf dataBuf),h (.read addr len buf),
    waitDoneLoop_csReads i2cWaitLimit s,waitStopLoop_csReads i2cWaitLimit s⟩

/-- The bus is free behind a call exactly when no wait for a DONE reached its limit. If
only a bus error at a START counts as its loss, then the twentieth bus error of a call
must not be met behind a byte either. -/
theorem released_iff (q : Request) (s : Ctl) :
    (Released (q.bus s) ↔ .hung ∉ q.bus s) ∧
      (ReleasedStrict (q.bus s) ↔
        (Limit 0 (q.bus s) → (lastAttempt (q.bus s)).head? = some .berr)) := by
  obtain ⟨r,_,hc,_⟩ := q.call_spec s
  exact hc.released fun _ _ => q.attempt_shape

theorem waitDoneLoop_stuck (limit : ℕ) (s : Ctl) (h : ∀ k, s.i2cs k &&& bmDone = 0) :
    (waitDoneLoop limit s).1 = false := by
  induction limit generalizing s with
  | zero => rfl
  | succ limit ih =>
    simp only [waitDoneLoop]
    split_ifs with hc
    · exact ih _ h
    · have hs : s.cancel = true := by
        simpa [readCs,h] using hc
      simp [hs]

/-- A controller that answers nothing: the address byte never gets its DONE. -/
theorem bus_stuck (addr : Byte) (addrBuf dataBuf : List Byte) (s : Ctl) (h : ∀ k, s.i2cs k = 0) :
    (Request.write addr addrBuf dataBuf).bus s = [.start,.sent (writeAddress addr),.hung] := by
  have hb : ¬ (readCs (orCs bmStart (clearCancel s))).1 &&& bmBerr ≠ 0 := by
    simp [readCs,orCs,clearCancel,Ctl.emit,h]
  have hm := ((moves_start .write (clearCancel s) .off).then (moves_started .write hb)).then
    (moves_send .write (writeAddress addr) (s:=(readCs (orCs bmStart (clearCancel s))).2) rfl .clear)
  have hw : (waitDone (writeDat (writeAddress addr)
      (readCs (orCs bmStart (clearCancel s))).2)).1 = false := by
    refine waitDoneLoop_stuck _ _ fun k => ?_
    simp [writeDat,readCs,orCs,clearCancel,Ctl.emit,h]
  have hc : (i2cWrite addr addrBuf dataBuf s).2 = countTimeoutWrite (waitDone
      (writeDat (writeAddress addr) (readCs (orCs bmStart (clearCancel s))).2)).2 := by
    have hs : ¬ (clearCancel s).cancel = true := by simp [clearCancel]
    simp only [i2cWrite,writeAttempts,writeAttempt,if_neg hs,if_neg hb,if_pos hw]
  rw [hw] at hm
  have hm' : Moves .write 0 1 (clearCancel s) (countTimeoutWrite _) .off .off _ :=
    hm.count rfl rfl (by simp [countTimeoutWrite,bump])
  change events s (i2cWrite addr addrBuf dataBuf s).2 = _
  rw [hc]
  exact hm'.events_eq

theorem unreleased_sample :
    ¬ Released ((Request.write 0x10 [0x00] []).bus (Ctl.fresh (fun _ => 0) fun _ => 0)) ∧
    ¬ ReleasedStrict ((Request.write 0x10 [0x00] []).bus (Ctl.fresh (fun _ => 0) fun _ => 0)) := by
  rw [bus_stuck _ _ _ _ fun _ => rfl]
  decide

/-- A write that returns TRUE has sent everything, in its last attempt and
acknowledged byte by byte, and a data byte without an ACK ends the call. -/
theorem i2cWrite_writes (addr : Byte) (addrBuf dataBuf : List Byte) (s : Ctl)
    (hl : addrBuf.length + dataBuf.length < 2^16) :
    ((i2cWrite addr addrBuf dataBuf s).1 = some true →
      ∃ pre, events s (i2cWrite addr addrBuf dataBuf s).2 =
        pre ++ .start::(acked (writeAddress addr::(addrBuf ++ dataBuf)) ++ [.stop])) ∧
    ∀ pre v post, events s (i2cWrite addr addrBuf dataBuf s).2 =
        pre ++ .ack::.sent v::.nack::post →
      (i2cWrite addr addrBuf dataBuf s).1 = some false ∧ post = [.stop] := by
  obtain ⟨r,hr,hc,_⟩ := (Request.write addr addrBuf dataBuf).call_spec s
  change (i2cWrite addr addrBuf dataBuf s).1 = some r at hr
  change Call (WriteEv _ _) 2 0 r (events s (i2cWrite addr addrBuf dataBuf s).2) at hc
  rw [hr]
  refine ⟨fun ht => ?_,fun pre v post he => ?_⟩
  · obtain rfl := Option.some.inj ht
    obtain ⟨pre,e,t,hs⟩ := hc.last (fun _ _ => WriteEv.shape) (by decide)
    obtain ⟨tries,hx⟩ := hs.exit
    have hp : payload addrBuf dataBuf = addrBuf ++ dataBuf := by
      rw [payload,Nat.mod_eq_of_lt hl,← List.length_append,List.take_length]
    have hw := hs.attempt
    rw [exitOf_true hx,hp] at hw
    exact ⟨pre,by rw [hs.split,hw.complete_eq]⟩
  · obtain ⟨rfl,hp⟩ := hc.nack_last he
    exact ⟨rfl,hp⟩

theorem i2cWrite_writes_sample :
    ∃ pre, events (Ctl.fresh (fun _ => 0x03) fun _ => 0)
        (i2cWrite 0x10 [0x03] [0x07] (Ctl.fresh (fun _ => 0x03) fun _ => 0)).2 =
      pre ++ .start::(acked [0x20,0x03,0x07] ++ [.stop]) := by
  have hr : (i2cWrite 0x10 [0x03] [0x07] (Ctl.fresh (fun _ => 0x03) fun _ => 0)).1 =
      some true := by decide +kernel
  exact (i2cWrite_writes 0x10 [0x03] [0x07] _ (by decide)).1 hr

end I2cOutcome
end AkbPcr20x
