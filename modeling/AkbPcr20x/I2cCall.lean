import AkbPcr20x.I2cBus
import Mathlib.Data.List.GetD

/-! What a call of `i2c_write` or `i2c_read` does on the bus. A call is a list of
attempts; each one starts with a START and has one of five endings, and the two retry
budgets decide from the ending whether another attempt follows. The engine refines
this description. -/
namespace AkbPcr20x
namespace I2cCall

open Memory MainLoop I2cEngine I2cBus

/-- `lost` is a bus error, `hung` a wait that reached its limit; `refused` and `nacked`
are an address and a data byte without an ACK. -/
inductive Ending
  | lost
  | hung
  | refused
  | nacked
  | complete
  deriving DecidableEq

def Ending.berrs : Ending → ℕ
  | .lost => 1
  | _ => 0

/-- A STOP ends the attempt. -/
def Ending.stopped : Ending → Prop
  | .lost | .hung => False
  | _ => True

/-- What the budgets make of an ending: `tries` address attempts and `berrs` bus errors
so far. -/
def exitOf (tries berrs : ℕ) : Ending → Exit
  | .lost => if i2cBerrMaxRetry ≤ berrs + 1 then .ret false else .again tries (berrs + 1)
  | .hung => .ret false
  | .refused => if tries - 1 = 0 then .ret false else .again (tries - 1) berrs
  | .nacked => .ret false
  | .complete => .ret true

def gaveUp (berrs : ℕ) : Ending → ℕ
  | .lost => if i2cBerrMaxRetry ≤ berrs + 1 then 1 else 0
  | .hung => 1
  | _ => 0

inductive DataEv : List Byte → Ending → List BusEv → Prop
  | complete : DataEv [] .complete [.stop]
  | lost {v bs} : DataEv (v::bs) .lost [.sent v,.berr]
  | hung {v bs} : DataEv (v::bs) .hung [.sent v,.hung]
  | nacked {v bs} : DataEv (v::bs) .nacked [.sent v,.nack,.stop]
  | next {v bs e es} : DataEv bs e es → DataEv (v::bs) e (.sent v::.ack::es)

/-- An attempt to write `bs` behind the address byte `a`. -/
inductive WriteEv (a : Byte) (bs : List Byte) : Ending → List BusEv → Prop
  | noStart : WriteEv a bs .lost [.start,.berr]
  | lost : WriteEv a bs .lost [.start,.sent a,.berr]
  | hung : WriteEv a bs .hung [.start,.sent a,.hung]
  | refused : WriteEv a bs .refused [.start,.sent a,.nack,.stop]
  | data {e es} : DataEv bs e es → WriteEv a bs e (.start::.sent a::.ack::es)

def lastrdIf (last : Prop) [Decidable last] : List BusEv := if last then [.lastrd] else []

/-- The bytes of a read while a byte is on the wire, `n` turns of the loop before the
last one; the list holds the bytes stored. -/
inductive FetchEv : ℕ → Ending → List BusEv → List Byte → Prop
  | lost {n} : FetchEv n .lost [.berr] []
  | hung {n} : FetchEv n .hung [.hung] []
  | last {v} : FetchEv 0 .complete [.stop,.got v] [v]
  | next {n v e es ds} : FetchEv n e es ds →
      FetchEv (n+1) e (lastrdIf (n = 0) ++ .got v::es) (v::ds)

/-- An attempt to read `len` bytes behind the address byte `a`; the first byte taken is
not stored. -/
inductive ReadEv (a : Byte) (len : ℕ) : Ending → List BusEv → List Byte → Prop
  | noStart : ReadEv a len .lost [.start,.berr] []
  | lost : ReadEv a len .lost [.start,.sent a,.berr] []
  | hung : ReadEv a len .hung [.start,.sent a,.hung] []
  | refused : ReadEv a len .refused [.start,.sent a,.nack,.stop] []
  | data {v e es ds} : FetchEv (len-1) e es ds →
      ReadEv a len e (.start::.sent a::.ack::(lastrdIf (len = 1) ++ .got v::es)) ds

/-- The attempts of a call, with its result and its events. -/
inductive Call (A : Ending → List BusEv → Prop) : ℕ → ℕ → Bool → List BusEv → Prop
  | ret {tries berrs e es r} (ha : A e es) (he : exitOf tries berrs e = .ret r) :
      Call A tries berrs r es
  | again {tries berrs tries' berrs' e es es' r} (ha : A e es)
      (he : exitOf tries berrs e = .again tries' berrs') (hc : Call A tries' berrs' r es') :
      Call A tries berrs r (es ++ es')

/-- An attempt of the engine with its ending and its events, from any bus state. -/
structure Attempted (dir : Dir) (A : Ending → List BusEv → Prop) (tries berrs : ℕ) (s s' : Ctl)
    (p : Phase) (x : Exit) : Prop where
  out : ∃ e es, A e es ∧ x = exitOf tries berrs e ∧ Moves dir e.berrs (gaveUp berrs e) s s' p .off es

variable {dir : Dir} {tries berrs : ℕ} {s s' s'' : Ctl} {p p' : Phase}

theorem Attempted.after {A B : Ending → List BusEv → Prop} {es : List BusEv} {x : Exit}
    (h : Moves dir 0 0 s s' p p' es) (h' : Attempted dir B tries berrs s' s'' p' x)
    (hAB : ∀ e es', B e es' → A e (es ++ es')) : Attempted dir A tries berrs s s'' p x := by
  obtain ⟨e,es',hB,hx,hm⟩ := h'.out
  have hm' := h.trans hm
  rw [Nat.zero_add,Nat.zero_add] at hm'
  exact ⟨e,es ++ es',hAB e es' hB,hx,hm'⟩

theorem Attempted.of_moves {A : Ending → List BusEv → Prop} {es : List BusEv} {e : Ending}
    (h : Moves dir e.berrs (gaveUp berrs e) s s' p .off es) (ha : A e es) :
    Attempted dir A tries berrs s s' p (exitOf tries berrs e) :=
  ⟨e,es,ha,rfl,h⟩

theorem moves_berr (dir : Dir) {s : Ctl} (hp : p = .started ∨ p = .done)
    (h : (readCs s).1 &&& bmBerr ≠ 0) : Moves dir 0 0 s (readCs s).2 p .off [.berr] := by
  have hr := moves_readCs dir s p
  rcases hp with rfl | rfl
  · rwa [observeCs,if_pos h] at hr
  · rwa [observeCs,if_pos h] at hr

theorem moves_started (dir : Dir) {s : Ctl} (h : ¬ (readCs s).1 &&& bmBerr ≠ 0) :
    Moves dir 0 0 s (readCs s).2 .started .clear [] := by
  have hr := moves_readCs dir s .started
  rwa [observeCs,if_neg h] at hr

theorem moves_checked (dir : Dir) {s : Ctl} (h : ¬ (readCs s).1 &&& bmBerr ≠ 0) :
    Moves dir 0 0 s (readCs s).2 .done .checked [] := by
  have hr := moves_readCs dir s .done
  rwa [observeCs,if_neg h] at hr

theorem moves_ack (dir : Dir) {s : Ctl} (h : ¬ (readCs s).1 &&& bmAck = 0) :
    Moves dir 0 0 s (readCs s).2 .checked .clear [.ack] := by
  have hr := moves_readCs dir s .checked
  rwa [observeCs,if_pos h] at hr

theorem moves_nack (dir : Dir) {s : Ctl} (h : (readCs s).1 &&& bmAck = 0) :
    Moves dir 0 0 s (readCs s).2 .checked .clear [.nack] := by
  have hr := moves_readCs dir s .checked
  rwa [observeCs,if_neg (not_not.mpr h)] at hr

theorem moves_send (dir : Dir) (v : Byte) {s : Ctl} (hc : s.cancel = false) (p : Phase) :
    Moves dir 0 0 s (waitDone (writeDat v s)).2 p
      (if (waitDone (writeDat v s)).1 then .done else .off)
      (.sent v::if (waitDone (writeDat v s)).1 then [] else [.hung]) :=
  (moves_writeDat dir v s p).then (moves_waitDone dir (writeDat v s) hc)

/-- How a wait for DONE and the test for a bus error behind it end, after the events `es`. -/
inductive Awaited (dir : Dir) (s : Ctl) (p : Phase) (es : List BusEv) (r : Bool × Ctl) : Prop
  | hung (h : r.1 = false) (hm : Moves dir 0 0 s r.2 p .off (es ++ [.hung]))
  | lost (h : ¬ r.1 = false) (hb : (readCs r.2).1 &&& bmBerr ≠ 0)
      (hm : Moves dir 0 0 s (readCs r.2).2 p .off (es ++ [.berr]))
  | checked (h : ¬ r.1 = false) (hb : ¬ (readCs r.2).1 &&& bmBerr ≠ 0)
      (hm : Moves dir 0 0 s (readCs r.2).2 p .checked es)

theorem awaited {s : Ctl} {es : List BusEv} {r : Bool × Ctl}
    (h : Moves dir 0 0 s r.2 p (if r.1 then .done else .off)
      (es ++ if r.1 then [] else [.hung])) : Awaited dir s p es r := by
  by_cases h₁ : r.1 = false
  · simp only [h₁] at h
    exact .hung h₁ h
  simp only [Bool.not_eq_false] at h₁
  simp only [h₁,if_true,List.append_nil] at h
  have hn : ¬ r.1 = false := by simp [h₁]
  by_cases h₂ : (readCs r.2).1 &&& bmBerr ≠ 0
  · exact .lost hn h₂ (h.then (moves_berr dir (Or.inr rfl) h₂))
  · have hk := h.then (moves_checked dir h₂)
    rw [List.append_nil] at hk
    exact .checked hn h₂ hk

variable {A : Ending → List BusEv → Prop} {e : Ending} {es : List BusEv}

theorem Attempted.lostWrite (h : Moves .write 0 0 s s' p .off es) (ha : A .lost es) :
    Attempted .write A tries berrs s (berrWrite tries berrs s').2 p (berrWrite tries berrs s').1 := by
  by_cases hb : i2cBerrMaxRetry ≤ berrs + 1
  · have he : berrWrite tries berrs s' = (exitOf tries berrs .lost,
        countTimeoutWrite (countBerrWrite s')) := by simp [berrWrite,exitOf,hb]
    have hm : Moves .write 1 (gaveUp berrs .lost) s (countTimeoutWrite (countBerrWrite s')) p .off es :=
      h.count rfl rfl (by simp [countTimeoutWrite,countBerrWrite,bump,gaveUp,hb])
    rw [he]
    exact .of_moves hm ha
  · have he : berrWrite tries berrs s' = (exitOf tries berrs .lost,countBerrWrite s') := by
      simp [berrWrite,exitOf,hb]
    have hm : Moves .write 1 (gaveUp berrs .lost) s (countBerrWrite s') p .off es :=
      h.count rfl rfl (by simp [countBerrWrite,bump,gaveUp,hb])
    rw [he]
    exact .of_moves hm ha

theorem Attempted.lostRead (h : Moves .read 0 0 s s' p .off es) (ha : A .lost es) :
    Attempted .read A 0 berrs s (berrRead berrs s').2 p (berrRead berrs s').1 := by
  by_cases hb : i2cBerrMaxRetry ≤ berrs + 1
  · have he : berrRead berrs s' = (exitOf 0 berrs .lost,countTimeoutRead (countBerrRead s')) := by
      simp [berrRead,exitOf,hb]
    have hm : Moves .read 1 (gaveUp berrs .lost) s (countTimeoutRead (countBerrRead s')) p .off es :=
      h.count rfl rfl (by simp [countTimeoutRead,countBerrRead,bump,gaveUp,hb])
    rw [he]
    exact .of_moves hm ha
  · have he : berrRead berrs s' = (exitOf 0 berrs .lost,countBerrRead s') := by
      simp [berrRead,exitOf,hb]
    have hm : Moves .read 1 (gaveUp berrs .lost) s (countBerrRead s') p .off es :=
      h.count rfl rfl (by simp [countBerrRead,bump,gaveUp,hb])
    rw [he]
    exact .of_moves hm ha

theorem Attempted.hungWrite (h : Moves .write 0 0 s s' p .off es) (ha : A .hung es) :
    Attempted .write A tries berrs s (countTimeoutWrite s') p (.ret false) :=
  ⟨.hung,es,ha,rfl,h.count rfl rfl (by simp [countTimeoutWrite,bump,Ending.berrs,gaveUp])⟩

theorem Attempted.hungRead (h : Moves .read 0 0 s s' p .off es) (ha : A .hung es) :
    Attempted .read A tries berrs s (countTimeoutRead s') p (.ret false) :=
  ⟨.hung,es,ha,rfl,h.count rfl rfl (by simp [countTimeoutRead,bump,Ending.berrs,gaveUp])⟩

theorem outByte_eq (addrBuf dataBuf : List Byte) (i : ℕ) :
    outByte addrBuf dataBuf i = (addrBuf ++ dataBuf).getD i 0 := by
  by_cases h : i < addrBuf.length
  · rw [outByte,if_pos h,List.getD_append _ _ _ _ h]
  · rw [outByte,if_neg h,List.getD_append_right _ _ _ _ (by omega)]

theorem drop_take_succ (addrBuf dataBuf : List Byte) {i n : ℕ}
    (h : i < (addrBuf ++ dataBuf).length) :
    ((addrBuf ++ dataBuf).drop i).take (n+1) =
      outByte addrBuf dataBuf i :: ((addrBuf ++ dataBuf).drop (i+1)).take n := by
  rw [List.drop_eq_getElem_cons h,List.take_succ_cons,outByte_eq,List.getD_eq_getElem _ _ h]

theorem writeBytes_attempted (addrBuf dataBuf : List Byte) (tries berrs n i : ℕ) (s : Ctl)
    (hc : s.cancel = false) (hn : i + n ≤ (addrBuf ++ dataBuf).length) :
    Attempted .write (DataEv (((addrBuf ++ dataBuf).drop i).take n)) tries berrs s
      (writeBytes addrBuf dataBuf tries berrs n i s).2 .clear
      (writeBytes addrBuf dataBuf tries berrs n i s).1 := by
  induction n generalizing i s with
  | zero =>
    have hm := moves_stop .write s .clear
    have hx : (writeBytes addrBuf dataBuf tries berrs 0 i s).1 = exitOf tries berrs .complete := by
      have hs : (waitStop (orCs bmStop s)).cancel = false := hm.cancel.trans hc
      simp only [writeBytes,hs]
      rfl
    rw [hx]
    exact .of_moves hm .complete
  | succ n ih =>
    rw [drop_take_succ addrBuf dataBuf (by omega)]
    have hs := moves_send .write (outByte addrBuf dataBuf i) hc .clear
    simp only [writeBytes]
    generalize waitDone (writeDat (outByte addrBuf dataBuf i) s) = r at hs ⊢
    have hw : Awaited .write s .clear [.sent (outByte addrBuf dataBuf i)] r := awaited hs
    rcases hw with ⟨h₁,hm⟩ | ⟨h₁,h₂,hm⟩ | ⟨h₁,h₂,hk⟩
    · rw [if_pos h₁]
      exact .hungWrite hm .hung
    · rw [if_neg h₁,if_pos h₂]
      exact .lostWrite hm .lost
    rw [if_neg h₁,if_neg h₂]
    by_cases h₃ : (readCs (readCs r.2).2).1 &&& bmAck = 0
    · rw [if_pos h₃]
      exact .of_moves (e:=.nacked)
        ((hk.then (moves_nack .write h₃)).then (moves_stop .write _ .clear)) .nacked
    · rw [if_neg h₃]
      have ha := hk.then (moves_ack .write h₃)
      exact .after ha (ih (i+1) _ (ha.cancel.trans hc) (by omega)) fun e es' h => .next h

theorem writeAttempt_attempted (addr : Byte) (addrBuf dataBuf : List Byte) (tries berrs : ℕ)
    (s : Ctl) (hc : s.cancel = false) :
    Attempted .write (WriteEv (writeAddress addr)
        ((addrBuf ++ dataBuf).take ((addrBuf.length + dataBuf.length) % 2^16))) tries berrs s
      (writeAttempt addr addrBuf dataBuf tries berrs s).2 .off
      (writeAttempt addr addrBuf dataBuf tries berrs s).1 := by
  have h0 := moves_start .write s .off
  have hcs : ¬ s.cancel = true := by simp [hc]
  simp only [writeAttempt]
  rw [if_neg hcs]
  by_cases h₁ : (readCs (orCs bmStart s)).1 &&& bmBerr ≠ 0
  · rw [if_pos h₁]
    exact .lostWrite (h0.then (moves_berr .write (Or.inl rfl) h₁)) .noStart
  rw [if_neg h₁]
  have hb := h0.then (moves_started .write h₁)
  have hs := hb.then (moves_send .write (writeAddress addr) (hb.cancel.trans hc) .clear)
  generalize waitDone (writeDat (writeAddress addr) (readCs (orCs bmStart s)).2) = r at hs ⊢
  have hw : Awaited .write s .off [.start,.sent (writeAddress addr)] r := awaited hs
  rcases hw with ⟨h₂,hm⟩ | ⟨h₂,h₃,hm⟩ | ⟨h₂,h₃,hk⟩
  · rw [if_pos h₂]
    exact .hungWrite hm .hung
  · rw [if_neg h₂,if_pos h₃]
    exact .lostWrite hm .lost
  rw [if_neg h₂,if_neg h₃]
  by_cases h₄ : (readCs (readCs r.2).2).1 &&& bmAck = 0
  · rw [if_pos h₄]
    have hm := (hk.then (moves_nack .write h₄)).then (moves_stop .write _ .clear)
    have hcm : ¬ (waitStop (orCs bmStop (readCs (readCs r.2).2).2)).cancel = true := by
      rw [hm.cancel,hc]
      decide
    rw [if_neg hcm]
    refine ⟨.refused,_,.refused,?_,?_⟩
    · simp only [exitOf]
      split_ifs <;> rfl
    · split_ifs <;> exact hm
  · rw [if_neg h₄]
    have ha := hk.then (moves_ack .write h₄)
    have hw := writeBytes_attempted addrBuf dataBuf tries berrs
      ((addrBuf.length + dataBuf.length) % 2^16) 0 (readCs (readCs r.2).2).2 (ha.cancel.trans hc)
      (by rw [List.length_append]; omega)
    exact .after ha hw fun e es' h => .data h

theorem moves_lastrdIf (dir : Dir) (last : Prop) [Decidable last] (s : Ctl) (p : Phase) :
    Moves dir 0 0 s (if last then orCs bmLastrd s else s) p p (lastrdIf last) := by
  unfold lastrdIf
  split_ifs
  · exact moves_lastrd dir s p
  · exact .refl dir s p

theorem readBytes_attempted (berrs n i : ℕ) (buf : Mem Byte) (s : Ctl) (hc : s.cancel = false) :
    Attempted .read (fun e es => ∃ ds, FetchEv n e es ds ∧
        (readBytes berrs n i buf s).2.1 = store buf i ds) 0 berrs s
      (readBytes berrs n i buf s).2.2 (.busy 0) (readBytes berrs n i buf s).1 := by
  induction n generalizing i buf s with
  | zero =>
    have hs := moves_waitDone .read s hc
    simp only [readBytes,readLast]
    generalize waitDone s = r at hs ⊢
    have hw : Awaited .read s (.busy 0) [] r := awaited hs
    rcases hw with ⟨h₁,hm⟩ | ⟨h₁,h₂,hm⟩ | ⟨h₁,h₂,hk⟩
    · rw [if_pos h₁]
      exact .hungRead hm ⟨[],.hung,rfl⟩
    · rw [if_neg h₁,if_pos h₂]
      exact .lostRead hm ⟨[],.lost,rfl⟩
    · rw [if_neg h₁,if_neg h₂]
      have hm := ((hk.then (moves_orCs .read bmStop _ .checked)).then
        (moves_readDat_off .read _)).then (moves_waitStopLoop .read i2cWaitLimit _)
      refine ⟨.complete,_,⟨_,.last,rfl⟩,?_,hm⟩
      have hcm := hm.cancel.trans hc
      simp only [waitStop,hcm]
      rfl
  | succ n ih =>
    have hs := moves_waitDone .read s hc
    simp only [readBytes]
    generalize waitDone s = r at hs ⊢
    have hw : Awaited .read s (.busy 0) [] r := awaited hs
    rcases hw with ⟨h₁,hm⟩ | ⟨h₁,h₂,hm⟩ | ⟨h₁,h₂,hk⟩
    · rw [if_pos h₁]
      exact .hungRead hm ⟨[],.hung,rfl⟩
    · rw [if_neg h₁,if_pos h₂]
      exact .lostRead hm ⟨[],.lost,rfl⟩
    · rw [if_neg h₁,if_neg h₂]
      have hm := (hk.then (moves_lastrdIf .read (n = 0) _ .checked)).then
        (moves_readDat .read _ (by simp))
      refine .after hm (ih (i+1) _ _ (hm.cancel.trans hc)) fun e es' h => ?_
      obtain ⟨ds,hf,hb⟩ := h
      refine ⟨_::ds,?_,hb⟩
      rw [List.append_assoc]
      exact .next hf

theorem readAttempt_attempted (addr : Byte) (len berrs : ℕ) (buf : Mem Byte) (s : Ctl)
    (hc : s.cancel = false) :
    Attempted .read (fun e es => ∃ ds, ReadEv (readAddress addr) len e es ds ∧
        (readAttempt addr len berrs buf s).2.1 = store buf 0 ds) 0 berrs s
      (readAttempt addr len berrs buf s).2.2 .off (readAttempt addr len berrs buf s).1 := by
  have h0 := moves_start .read s .off
  have hcs : ¬ s.cancel = true := by simp [hc]
  simp only [readAttempt]
  rw [if_neg hcs]
  by_cases h₁ : (readCs (orCs bmStart s)).1 &&& bmBerr ≠ 0
  · rw [if_pos h₁]
    exact .lostRead (h0.then (moves_berr .read (Or.inl rfl) h₁)) ⟨[],.noStart,rfl⟩
  rw [if_neg h₁]
  have hb := h0.then (moves_started .read h₁)
  have hs := hb.then (moves_send .read (readAddress addr) (hb.cancel.trans hc) .clear)
  generalize waitDone (writeDat (readAddress addr) (readCs (orCs bmStart s)).2) = r at hs ⊢
  have hw : Awaited .read s .off [.start,.sent (readAddress addr)] r := awaited hs
  rcases hw with ⟨h₂,hm⟩ | ⟨h₂,h₃,hm⟩ | ⟨h₂,h₃,hk⟩
  · rw [if_pos h₂]
    exact .hungRead hm ⟨[],.hung,rfl⟩
  · rw [if_neg h₂,if_pos h₃]
    exact .lostRead hm ⟨[],.lost,rfl⟩
  rw [if_neg h₂,if_neg h₃]
  by_cases h₄ : (readCs (readCs r.2).2).1 &&& bmAck = 0
  · rw [if_pos h₄]
    exact .of_moves (e:=.refused)
      ((hk.then (moves_nack .read h₄)).then (moves_stop .read _ .clear)) ⟨[],.refused,rfl⟩
  · rw [if_neg h₄]
    have hm := ((hk.then (moves_ack .read h₄)).then (moves_lastrdIf .read (len = 1) _ .clear)).then
      (moves_readDat .read _ (by simp))
    refine .after hm (readBytes_attempted berrs (len-1) 0 buf _ (hm.cancel.trans hc)) fun e es' h => ?_
    obtain ⟨ds,hf,hb⟩ := h
    refine ⟨ds,?_,hb⟩
    simp only [List.append_assoc,List.cons_append,List.nil_append]
    exact .data hf

theorem FetchEv.length_le {n : ℕ} {e : Ending} {es : List BusEv} {ds : List Byte}
    (h : FetchEv n e es ds) : ds.length ≤ n+1 := by
  induction h with
  | next _ ih =>
    rw [List.length_cons]
    omega
  | _ => simp

/-- A read of no bytes still stores one. -/
theorem ReadEv.length_le {a : Byte} {len : ℕ} {e : Ending} {es : List BusEv} {ds : List Byte}
    (h : ReadEv a len e es ds) : ds.length ≤ max len 1 := by
  cases h with
  | data h =>
    have hl := h.length_le
    omega
  | _ => simp

theorem readAttempts_frame (addr : Byte) (len fuel berrs : ℕ) (buf : Mem Byte) (s : Ctl)
    (hc : s.cancel = false) {j : ℕ} (hj : max len 1 ≤ j) :
    (readAttempts addr len fuel berrs buf s).2.1 j = buf j := by
  induction fuel generalizing berrs buf s with
  | zero => rfl
  | succ fuel ih =>
    obtain ⟨e,es,⟨ds,hd,hb⟩,_,hm⟩ := (readAttempt_attempted addr len berrs buf s hc).out
    have hl := hd.length_le
    have hbuf : (readAttempt addr len berrs buf s).2.1 j = buf j := by
      rw [hb,store_of_ge _ _ _ (by omega)]
    have hcancel := hm.cancel.trans hc
    rw [readAttempts]
    rcases he : readAttempt addr len berrs buf s with ⟨r | ⟨tries',berrs'⟩,buf',s'⟩
    · rw [he] at hbuf
      exact hbuf
    · rw [he] at hbuf hcancel
      exact (ih berrs' buf' s' hcancel).trans hbuf

theorem i2cRead_frame (addr : Byte) (len : ℕ) (buf : Mem Byte) (s : Ctl) {j : ℕ}
    (hj : max len 1 ≤ j) : (i2cRead addr len buf s).2.1 j = buf j :=
  readAttempts_frame addr len 20 0 buf (clearCancel s) rfl hj

/-- The facts about the events behind a START that the budgets depend on. -/
structure Tail (e : Ending) (es : List BusEv) : Prop where
  start : .start ∉ es
  berrs : es.count .berr = e.berrs
  hung : .hung ∈ es ↔ e = .hung
  stop : .stop ∈ es ↔ e.stopped
  nack : .nack ∈ es ↔ e = .refused ∨ e = .nacked

def Shape (e : Ending) (es : List BusEv) : Prop := ∃ t, es = .start::t ∧ Tail e t

theorem DataEv.tail {bs : List Byte} {e : Ending} {es : List BusEv} (h : DataEv bs e es) :
    Tail e es := by
  induction h with
  | next _ ih => exact ⟨by simpa using ih.start,by simpa using ih.berrs,by simpa using ih.hung,
      by simpa using ih.stop,by simpa using ih.nack⟩
  | _ => constructor <;> simp [Ending.berrs,Ending.stopped]

theorem Tail.got {e : Ending} {es : List BusEv} (h : Tail e es) (last : Prop) [Decidable last]
    (v : Byte) : Tail e (lastrdIf last ++ .got v::es) := by
  unfold lastrdIf
  split_ifs <;>
    exact ⟨by simpa using h.start,by simpa using h.berrs,by simpa using h.hung,by simpa using h.stop,
      by simpa using h.nack⟩

theorem FetchEv.tail {n : ℕ} {e : Ending} {es : List BusEv} {ds : List Byte}
    (h : FetchEv n e es ds) : Tail e es := by
  induction h with
  | next _ ih => exact ih.got _ _
  | _ => constructor <;> simp [Ending.berrs,Ending.stopped]

theorem Tail.shape {e : Ending} {es : List BusEv} (h : Tail e es) (a : Byte) :
    Shape e (.start::.sent a::.ack::es) :=
  ⟨_,rfl,by simpa using h.start,by simpa using h.berrs,by simpa using h.hung,by simpa using h.stop,
    by simpa using h.nack⟩

theorem WriteEv.shape {a : Byte} {bs : List Byte} {e : Ending} {es : List BusEv}
    (h : WriteEv a bs e es) : Shape e es := by
  cases h with
  | data h => exact h.tail.shape a
  | _ => exact ⟨_,rfl,by simp,by simp [Ending.berrs],by simp,by simp [Ending.stopped],by simp⟩

theorem ReadEv.shape {a : Byte} {len : ℕ} {e : Ending} {es : List BusEv} {ds : List Byte}
    (h : ReadEv a len e es ds) : Shape e es := by
  cases h with
  | data h => exact (h.tail.got _ _).shape a
  | _ => exact ⟨_,rfl,by simp,by simp [Ending.berrs],by simp,by simp [Ending.stopped],by simp⟩

/-- Only a bus error below the limit and a refused address lead to another attempt. -/
theorem exitOf_again {tries berrs tries' berrs' : ℕ} {e : Ending}
    (h : exitOf tries berrs e = .again tries' berrs') :
    (e = .lost ∧ tries' = tries ∧ berrs' = berrs + 1 ∧ berrs' < i2cBerrMaxRetry) ∨
      (e = .refused ∧ tries' = tries - 1 ∧ tries' ≠ 0 ∧ berrs' = berrs) := by
  cases e with
  | lost =>
    by_cases hb : i2cBerrMaxRetry ≤ berrs + 1
    · simp [exitOf,hb] at h
    · simp only [exitOf,hb,if_false,Exit.again.injEq] at h
      exact Or.inl ⟨rfl,h.1.symm,h.2.symm,by omega⟩
  | refused =>
    by_cases ht : tries - 1 = 0
    · simp [exitOf,ht] at h
    · simp only [exitOf,ht,if_false,Exit.again.injEq] at h
      exact Or.inr ⟨rfl,h.1.symm,by omega,h.2.symm⟩
  | _ => cases h

/-- One of the two limits was reached: a wait hung, or the bus errors used up the budget. -/
def Limit (berrs : ℕ) (es : List BusEv) : Prop :=
  .hung ∈ es ∨ berrs + es.count .berr = i2cBerrMaxRetry

instance (berrs : ℕ) (es : List BusEv) : Decidable (Limit berrs es) :=
  inferInstanceAs (Decidable (_ ∨ _))

theorem Shape.count_berr (h : Shape e es) : es.count .berr = e.berrs := by
  obtain ⟨t,rfl,ht⟩ := h
  simpa using ht.berrs

theorem Shape.hung_iff (h : Shape e es) : .hung ∈ es ↔ e = .hung := by
  obtain ⟨t,rfl,ht⟩ := h
  simpa using ht.hung

theorem Shape.gaveUp_eq (h : Shape e es) (hb : berrs < i2cBerrMaxRetry) :
    gaveUp berrs e = if Limit berrs es then 1 else 0 := by
  have hl : Limit berrs es ↔ e = .hung ∨ berrs + e.berrs = i2cBerrMaxRetry := by
    rw [Limit,h.hung_iff,h.count_berr]
  simp only [hl]
  cases e <;> simp only [gaveUp,Ending.berrs,reduceCtorEq,false_or,true_or,if_true]
  · congr 1
    rw [eq_iff_iff]
    omega
  all_goals rw [if_neg (by omega)]

theorem Shape.limit_append (h : Shape e es) {tries' berrs' : ℕ} (es' : List BusEv)
    (hx : exitOf tries berrs e = .again tries' berrs') :
    Limit berrs (es ++ es') ↔ Limit berrs' es' := by
  have hh : ¬ .hung ∈ es := by
    rw [h.hung_iff]
    rintro rfl
    cases hx
  have hc : berrs' = berrs + es.count .berr := by
    rw [h.count_berr]
    rcases exitOf_again hx with ⟨rfl,_,hb,_⟩ | ⟨rfl,_,_,hb⟩ <;> simpa [Ending.berrs] using hb
  rw [Limit,Limit,List.mem_append,List.count_append,hc]
  simp only [hh,false_or,Nat.add_assoc]

/-- A call of the engine, with its result: what it does on the bus, and what it counts. -/
structure Called (dir : Dir) (A : Ending → List BusEv → Prop) (tries berrs : ℕ) (s s' : Ctl)
    (r : Bool) : Prop where
  out : ∃ es, Call A tries berrs r es ∧
    Moves dir (es.count .berr) (if Limit berrs es then 1 else 0) s s' .off .off es

theorem Attempted.ret {r : Bool} (hA : ∀ e es, A e es → Shape e es) (hb : berrs < i2cBerrMaxRetry)
    (h : Attempted dir A tries berrs s s' .off (.ret r)) : Called dir A tries berrs s s' r := by
  obtain ⟨e,es,ha,hx,hm⟩ := h.out
  refine ⟨es,.ret ha hx.symm,?_⟩
  rwa [(hA e es ha).count_berr,← (hA e es ha).gaveUp_eq hb]

theorem Attempted.again {tries' berrs' : ℕ} {r : Bool} (hA : ∀ e es, A e es → Shape e es)
    (h : Attempted dir A tries berrs s s' .off (.again tries' berrs'))
    (h' : Called dir A tries' berrs' s' s'' r) : Called dir A tries berrs s s'' r := by
  obtain ⟨e,es,ha,hx,hm⟩ := h.out
  obtain ⟨es',hc,hm'⟩ := h'.out
  refine ⟨es ++ es',.again ha hx.symm hc,?_⟩
  have hg : gaveUp berrs e = 0 := by
    rcases exitOf_again hx.symm with ⟨rfl,_,_,_⟩ | ⟨rfl,_⟩
    · rw [gaveUp,if_neg (by omega)]
    · rfl
  have hh := hm.trans hm'
  simp only [(hA e es ha).limit_append es' hx.symm,List.count_append]
  rwa [hg,Nat.zero_add,← (hA e es ha).count_berr] at hh

/-- The bytes behind the address byte; the total length is a 16-bit sum. -/
def payload (addrBuf dataBuf : List Byte) : List Byte :=
  (addrBuf ++ dataBuf).take ((addrBuf.length + dataBuf.length) % 2^16)

theorem writeAttempts_called (addr : Byte) (addrBuf dataBuf : List Byte) (fuel tries berrs : ℕ)
    (s : Ctl) (hc : s.cancel = false) (ht : tries ≠ 0) (hb : berrs < i2cBerrMaxRetry)
    (hf : tries + (i2cBerrMaxRetry - berrs) ≤ fuel + 1) :
    ∃ r, (writeAttempts addr addrBuf dataBuf fuel tries berrs s).1 = some r ∧
      Called .write (WriteEv (writeAddress addr) (payload addrBuf dataBuf)) tries berrs s
        (writeAttempts addr addrBuf dataBuf fuel tries berrs s).2 r := by
  induction fuel generalizing tries berrs s with
  | zero => omega
  | succ fuel ih =>
    have ha := writeAttempt_attempted addr addrBuf dataBuf tries berrs s hc
    rw [writeAttempts]
    rcases he : writeAttempt addr addrBuf dataBuf tries berrs s with ⟨r | ⟨tries',berrs'⟩,s'⟩
    · rw [he] at ha
      exact ⟨r,rfl,ha.ret (fun _ _ => WriteEv.shape) hb⟩
    · rw [he] at ha
      obtain ⟨e,es,_,hx,hm⟩ := ha.out
      have hx' := exitOf_again hx.symm
      obtain ⟨r,hr,hcall⟩ :=
        ih tries' berrs' s' (hm.cancel.trans hc) (by omega) (by omega) (by omega)
      exact ⟨r,hr,ha.again (fun _ _ => WriteEv.shape) hcall⟩

/-- A call of `i2c_write`: 21 attempts are enough for it. -/
theorem i2cWrite_called (addr : Byte) (addrBuf dataBuf : List Byte) (s : Ctl) :
    ∃ r, (i2cWrite addr addrBuf dataBuf s).1 = some r ∧
      Called .write (WriteEv (writeAddress addr) (payload addrBuf dataBuf)) 2 0 (clearCancel s)
        (i2cWrite addr addrBuf dataBuf s).2 r :=
  writeAttempts_called addr addrBuf dataBuf 21 2 0 (clearCancel s) rfl (by omega) (by decide)
    (by decide)

theorem readAttempts_called (addr : Byte) (len fuel berrs : ℕ) (buf : Mem Byte) (s : Ctl)
    (hc : s.cancel = false) (hb : berrs < i2cBerrMaxRetry) (hf : i2cBerrMaxRetry - berrs ≤ fuel) :
    ∃ r, (readAttempts addr len fuel berrs buf s).1 = some r ∧
      Called .read (fun e es => ∃ ds, ReadEv (readAddress addr) len e es ds) 0 berrs s
        (readAttempts addr len fuel berrs buf s).2.2 r := by
  have hA : ∀ e es, (∃ ds, ReadEv (readAddress addr) len e es ds) → Shape e es :=
    fun _ _ h => h.choose_spec.shape
  induction fuel generalizing berrs buf s with
  | zero => omega
  | succ fuel ih =>
    have ha : Attempted .read (fun e es => ∃ ds, ReadEv (readAddress addr) len e es ds) 0 berrs s
        (readAttempt addr len berrs buf s).2.2 .off (readAttempt addr len berrs buf s).1 := by
      obtain ⟨e,es,⟨ds,hd,_⟩,hx,hm⟩ := (readAttempt_attempted addr len berrs buf s hc).out
      exact ⟨e,es,⟨ds,hd⟩,hx,hm⟩
    rw [readAttempts]
    rcases he : readAttempt addr len berrs buf s with ⟨r | ⟨tries',berrs'⟩,buf',s'⟩
    · rw [he] at ha
      exact ⟨r,rfl,ha.ret hA hb⟩
    · rw [he] at ha
      obtain ⟨e,es,_,hx,hm⟩ := ha.out
      have hx' := exitOf_again hx.symm
      obtain rfl : tries' = 0 := by omega
      obtain ⟨r,hr,hcall⟩ := ih berrs' buf' s' (hm.cancel.trans hc) (by omega) (by omega)
      exact ⟨r,hr,ha.again hA hcall⟩

/-- A call of `i2c_read`: an address without an ACK is not tried again. -/
theorem i2cRead_called (addr : Byte) (len : ℕ) (buf : Mem Byte) (s : Ctl) :
    ∃ r, (i2cRead addr len buf s).1 = some r ∧
      Called .read (fun e es => ∃ ds, ReadEv (readAddress addr) len e es ds) 0 0 (clearCancel s)
        (i2cRead addr len buf s).2.2 r :=
  readAttempts_called addr len 20 0 buf (clearCancel s) rfl (by decide) (by decide)

end I2cCall
end AkbPcr20x
