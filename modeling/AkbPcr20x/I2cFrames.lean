import AkbPcr20x.I2cOutcome

/-! What the devices on the bus take over. A frame is a byte string between a START and a
STOP that was acknowledged byte by byte; an attempt that breaks off leaves none, so that
the retries of a call hand its bytes over once or not at all. -/
namespace AkbPcr20x
namespace I2cFrames

open MainLoop I2cEngine I2cBus I2cCall I2cOutcome Transducer

/-- The bytes acknowledged since the START, and one that is not answered yet. -/
inductive FramePhase
  | idle
  | taking (bs : List Byte)
  | pending (bs : List Byte) (v : Byte)

def frame : FramePhase → BusEv → FramePhase × List (List Byte)
  | _, .start => (.taking [],[])
  | .taking bs, .sent v => (.pending bs v,[])
  | .pending bs v, .ack => (.taking (bs ++ [v]),[])
  | .taking bs, .stop => (.idle,[bs])
  | _, _ => (.idle,[])

def frames (es : List BusEv) : List (List Byte) := (run frame .idle es).2

/-- Only the attempt that completes a write hands it over. -/
def Ending.frames (bs : List Byte) : Ending → List (List Byte)
  | .complete => [bs]
  | _ => []

variable {a : Byte} {bs : List Byte} {e : Ending} {es es' : List BusEv} {p : FramePhase}

theorem run_data (h : DataEv bs e es) (as : List Byte) :
    run frame (.taking as) es = (.idle,Ending.frames (as ++ bs) e) := by
  induction h generalizing as with
  | complete =>
    rw [List.append_nil]
    rfl
  | @next v bs e es h ih =>
    have hh := ih (as ++ [v])
    rw [List.append_assoc,List.singleton_append] at hh
    simp only [run,frame,hh,List.nil_append]
  | _ => rfl

theorem run_write (h : WriteEv a bs e es) (p : FramePhase) :
    run frame p es = (.idle,Ending.frames (a::bs) e) := by
  cases h with
  | data h =>
    have hd := run_data h [a]
    simp only [run,frame,List.nil_append,hd,List.singleton_append]
  | _ => cases p <;> rfl

/-- A call of `i2c_write` hands its bytes over exactly once if it succeeds, and never
otherwise. -/
theorem run_writeCall {tries berrs : ℕ} {r : Bool} (h : Call (WriteEv a bs) tries berrs r es)
    (p : FramePhase) : run frame p es = (.idle,if r then [a::bs] else []) := by
  induction h generalizing p with
  | @ret tries berrs e es r ha he =>
    rw [run_write ha p]
    cases r with
    | true =>
      rw [exitOf_true he]
      rfl
    | false =>
      cases e with
      | complete => cases he
      | _ => rfl
  | @again tries berrs tries' berrs' e es es' r ha he hc ih =>
    have hn : Ending.frames (a::bs) e = [] := by
      cases e with
      | complete => cases he
      | _ => rfl
    have hw := run_write ha p
    rw [hn] at hw
    exact run_append hw (ih .idle)

theorem run_lastrdIf (last : Prop) [Decidable last] :
    run frame .idle (lastrdIf last) = (.idle,[]) := by
  unfold lastrdIf
  split_ifs <;> rfl

theorem run_fetch {n : ℕ} {ds : List Byte} (h : FetchEv n e es ds) :
    run frame .idle es = (.idle,[]) := by
  induction h with
  | @next n v e es ds h ih =>
    have hg : run frame .idle (.got v::es) = (.idle,[]) := by
      simp only [run,frame,ih,List.nil_append]
    exact run_append (run_lastrdIf (n = 0)) hg
  | _ => rfl

theorem run_read {len : ℕ} {ds : List Byte} (h : ReadEv a len e es ds) (p : FramePhase) :
    run frame p es = (.idle,[]) := by
  cases h with
  | @data v e es ds h =>
    have hf := run_fetch h
    unfold lastrdIf
    split_ifs
    · simp only [run,frame,hf,List.nil_append,List.cons_append]
    · simp only [run,frame,hf,List.nil_append]
  | _ => cases p <;> rfl

theorem run_readCall {len tries berrs : ℕ} {r : Bool}
    (h : Call (fun e es => ∃ ds, ReadEv a len e es ds) tries berrs r es) (p : FramePhase) :
    run frame p es = (.idle,[]) := by
  induction h generalizing p with
  | ret ha he =>
    obtain ⟨ds,hr⟩ := ha
    exact run_read hr p
  | again ha he hc ih =>
    obtain ⟨ds,hr⟩ := ha
    exact run_append (run_read hr p) (ih .idle)

/-- From `s` to `s'` the devices take over the frames `fs`, and the bus is free again. -/
def Takes (s s' : Ctl) (fs : List (List Byte)) : Prop :=
  ∃ es, Grows observe s.trace s'.trace .off .off es ∧ run frame .idle es = (.idle,fs)

variable {s s' s'' : Ctl} {fs fs' : List (List Byte)}

theorem Takes.refl (s : Ctl) : Takes s s [] := ⟨[],.refl observe s.trace .off,rfl⟩

theorem Takes.trans (h : Takes s s' fs) (h' : Takes s' s'' fs') : Takes s s'' (fs ++ fs') := by
  obtain ⟨es,hg,hr⟩ := h
  obtain ⟨es',hg',hr'⟩ := h'
  exact ⟨es ++ es',hg.trans hg',run_append hr hr'⟩

theorem Takes.frames_eq (h : Takes s s' fs) : frames (events s s') = fs := by
  obtain ⟨es,hg,hr⟩ := h
  have he : events s s' = es := hg.events_eq
  rw [he,frames,hr]

/-- Whatever the controller does, a write is taken over once if it returns TRUE, and not at
all if it returns FALSE. -/
theorem takes_write (addr : Byte) (addrBuf dataBuf : List Byte) (s : Ctl) :
    Takes s (i2cWrite addr addrBuf dataBuf s).2
      (if (i2cWrite addr addrBuf dataBuf s).1.getD false then
        [writeAddress addr::payload addrBuf dataBuf] else []) := by
  obtain ⟨r,hr,hc⟩ := i2cWrite_called addr addrBuf dataBuf s
  obtain ⟨es,hcall,hm⟩ := hc.out
  rw [hr,Option.getD_some]
  exact ⟨es,hm.trace,run_writeCall hcall .idle⟩

theorem takes_read (addr : Byte) (len : ℕ) (buf : Memory.Mem Byte) (s : Ctl) :
    Takes s (i2cRead addr len buf s).2.2 [] := by
  obtain ⟨r,hr,hc⟩ := i2cRead_called addr len buf s
  obtain ⟨es,hcall,hm⟩ := hc.out
  exact ⟨es,hm.trace,run_readCall hcall .idle⟩

theorem payload_nil {data : List Byte} (h : data.length < 2^16) : payload data [] = data := by
  rw [payload,List.append_nil,List.length_nil,Nat.add_zero,Nat.mod_eq_of_lt h,List.take_length]

def runRequests : List Request → Ctl → List Bool × Ctl
  | [], s => ([],s)
  | q::qs, s =>
    let r := q.call s
    let rest := runRequests qs r.2
    (r.1.getD false::rest.1,rest.2)

/-- The frames of a call that returned `ok`. -/
def Request.frames (q : Request) (ok : Bool) : List (List Byte) :=
  match q with
  | .write addr addrBuf dataBuf => if ok then [writeAddress addr::payload addrBuf dataBuf] else []
  | .read _ _ _ => []

theorem takes_call (q : Request) (s : Ctl) :
    Takes s (q.call s).2 (Request.frames q ((q.call s).1.getD false)) := by
  cases q with
  | write addr addrBuf dataBuf => exact takes_write addr addrBuf dataBuf s
  | read addr len buf => exact takes_read addr len buf s

def taken (qs : List Request) (oks : List Bool) : List (List Byte) :=
  (List.zipWith Request.frames qs oks).flatten

theorem runRequests_takes (qs : List Request) (s : Ctl) :
    Takes s (runRequests qs s).2 (taken qs (runRequests qs s).1) := by
  induction qs generalizing s with
  | nil => exact .refl s
  | cons q qs ih => exact (takes_call q s).trans (ih (q.call s).2)

/-- Over any run of calls and any behaviour of the bus, the devices take over the writes that
returned TRUE, each of them once and in order, and nothing of the retries, of the writes that
failed and of the reads. -/
theorem requests_taken (qs : List Request) (s : Ctl) :
    (runRequests qs s).1.length = qs.length ∧
      frames (events s (runRequests qs s).2) = taken qs (runRequests qs s).1 := by
  have hl : ∀ (qs : List Request) (s : Ctl), (runRequests qs s).1.length = qs.length := by
    intro qs
    induction qs with
    | nil => exact fun s => rfl
    | cons q qs ih => exact fun s => congrArg (· + 1) (ih (q.call s).2)
  exact ⟨hl qs s,(runRequests_takes qs s).frames_eq⟩

end I2cFrames
end AkbPcr20x
