import AkbPcr20x.I2cCall

/-! The bytes that `i2c_read` hands over. The controller is observed as a receiver: a
value of I2DAT is a byte of the device only where a byte has come in, an access to I2DAT
clocks the next one in unless a STOP was requested before, and the first access behind
the address finds no byte. -/
namespace AkbPcr20x
namespace I2cReceive

open Memory MainLoop I2cEngine I2cBus Transducer

/-- `clock` is a byte that begins to come in. A value of I2DAT is a received `byte`, the
`dummy` behind the address or, where none of them can be there, `stale`. -/
inductive RecvEv
  | start
  | select (adrs : Byte) (read : Bool)
  | ack
  | nack
  | lastrd
  | clock
  | dummy (v : Byte)
  | byte (v : Byte)
  | stale (v : Byte)
  | stop
  deriving DecidableEq

/-- `busy` and `done` are about a data byte or the address byte; `full` is a byte received
in I2DAT, and `last` the same behind a STOP request. -/
inductive RecvPhase
  | off
  | started
  | busy (data : Bool)
  | done (data : Bool)
  | answered
  | acked
  | full
  | last

def receiveCs (v : Byte) : RecvPhase → RecvPhase × List RecvEv
  | .started => if v &&& bmBerr ≠ 0 then (.off,[]) else (.started,[])
  | .busy data => if v &&& bmDone ≠ 0 then (.done data,[]) else (.busy data,[])
  | .done data =>
    if v &&& bmBerr ≠ 0 then (.off,[]) else (if data then .full else .answered,[])
  | .answered => if v &&& bmAck ≠ 0 then (.acked,[.ack]) else (.off,[.nack])
  | p => (p,[])

/-- The first byte behind a START is an address with the direction; the receiver sits out
a transfer in the other direction. -/
def receive (p : RecvPhase) : Access → RecvPhase × List RecvEv
  | .readCs v => receiveCs v p
  | .orCs bit _ =>
    if bit = bmStart then (.started,[.start])
    else if bit = bmStop then
      match p with
      | .full => (.last,[.stop])
      | _ => (.off,[.stop])
    else (p,[.lastrd])
  | .writeDat v =>
    match p with
    | .started => (if v &&& 1 ≠ 0 then .busy false else .off,[.select (v >>> 1) (v &&& 1 ≠ 0)])
    | _ => (.off,[])
  | .readDat v =>
    match p with
    | .acked => (.busy true,[.dummy v,.clock])
    | .full => (.busy true,[.byte v,.clock])
    | .last => (.off,[.byte v])
    | p => (p,[.stale v])

def receptions (s s' : Ctl) : List RecvEv :=
  (run receive .off (s'.trace.drop s.trace.length)).2

def RecvEv.taken : RecvEv → Option Byte
  | .dummy v => some v
  | .byte v => some v
  | .stale v => some v
  | _ => none

def RecvEv.received : RecvEv → Option Byte
  | .byte v => some v
  | _ => none

/-- How `data` comes in behind a START. The device at `adrs` is selected and answers;
the values taken from I2DAT are a dummy and the bytes received; one clock is given for
each byte, LASTRD is set in front of the access that gives the last one, and the last
byte is taken behind a STOP request. -/
structure Reception (adrs : Byte) (data : List Byte) (t : List RecvEv) : Prop where
  start : .start ∉ t
  selected : [.select adrs true,.ack] <+: t
  received : t.filterMap RecvEv.received = data
  taken : ∃ v, t.filterMap RecvEv.taken = v::data
  clocks : t.count .clock = data.length
  lastrd : t.count .lastrd = 1
  ending : ∃ (t' : List RecvEv) (e : RecvEv) (v : Byte),
    t = t' ++ [.lastrd,e,.clock,.stop,.byte v] ∧ e.taken.isSome

/-- `buf[cur_byte] = v` -/
def put (len curByte : Word) (v : Byte) (buf : Mem Byte) : Option (Mem Byte) :=
  if curByte < len then some (Function.update buf curByte.toNat v) else none

def readLast (len : Word) (berrRetry : ℕ) (curByte : Word) (buf : Mem Byte) (s : Ctl) :
    Option (Exit × Mem Byte × Ctl) :=
  let r := waitDone s
  if r.1 = false then some (.ret false,buf,countTimeoutRead r.2)
  else
    let v := readCs r.2
    if v.1 &&& bmBerr ≠ 0 then
      let e := berrRead berrRetry v.2
      some (e.1,buf,e.2)
    else do
      let d := readDat (orCs bmStop v.2)
      let buf ← put len curByte d.1 buf
      let s := waitStop d.2
      some (.ret (!s.cancel),buf,s)

/-- The loop has to end within its fuel. -/
def readBytes (len : Word) (berrRetry : ℕ) :
    ℕ → Word → Mem Byte → Ctl → Option (Exit × Mem Byte × Ctl)
  | 0, _, _, _ => none
  | fuel+1, curByte, buf, s =>
    if curByte + 1 < len then
      let r := waitDone s
      if r.1 = false then some (.ret false,buf,countTimeoutRead r.2)
      else
        let v := readCs r.2
        if v.1 &&& bmBerr ≠ 0 then
          let e := berrRead berrRetry v.2
          some (e.1,buf,e.2)
        else do
          let d := readDat (if len = curByte + 2 then orCs bmLastrd v.2 else v.2)
          let buf ← put len curByte d.1 buf
          readBytes len berrRetry fuel (curByte + 1) buf d.2
    else readLast len berrRetry curByte buf s

def readAttempt (addr : Byte) (len : Word) (berrRetry : ℕ) (buf : Mem Byte) (s : Ctl) :
    Option (Exit × Mem Byte × Ctl) :=
  if s.cancel then some (.ret false,buf,s)
  else
    let v := readCs (orCs bmStart s)
    if v.1 &&& bmBerr ≠ 0 then
      let e := berrRead berrRetry v.2
      some (e.1,buf,e.2)
    else
      let r := waitDone (writeDat (readAddress addr) v.2)
      if r.1 = false then some (.ret false,buf,countTimeoutRead r.2)
      else
        let v := readCs r.2
        if v.1 &&& bmBerr ≠ 0 then
          let e := berrRead berrRetry v.2
          some (e.1,buf,e.2)
        else
          let a := readCs v.2
          if a.1 &&& bmAck = 0 then some (.ret false,buf,waitStop (orCs bmStop a.2))
          else
            let s := if len = 1 then orCs bmLastrd a.2 else a.2
            readBytes len berrRetry len.toNat 0 buf (readDat s).2

def readAttempts (addr : Byte) (len : Word) :
    ℕ → ℕ → Mem Byte → Ctl → Option (Option Bool × Mem Byte × Ctl)
  | 0, _, buf, s => some (none,buf,s)
  | fuel+1, berrRetry, buf, s => do
    let x ← readAttempt addr len berrRetry buf s
    match x with
    | (.ret r,buf,s) => some (some r,buf,s)
    | (.again _ berrRetry,buf,s) => readAttempts addr len fuel berrRetry buf s

/-- `i2c_read` with its tests; `none` when one of them fails. -/
def i2cRead (addr : Byte) (len : Word) (buf : Mem Byte) (s : Ctl) :
    Option (Option Bool × Mem Byte × Ctl) :=
  readAttempts addr len 20 0 buf (clearCancel s)

theorem put_eq {len curByte : Word} (v : Byte) (buf : Mem Byte) (h : curByte.toNat < len.toNat) :
    put len curByte v buf = some (Function.update buf curByte.toNat v) := if_pos h

theorem readLast_checked {len curByte : Word} (h : curByte.toNat < len.toNat) (berrs : ℕ)
    (buf : Mem Byte) (s : Ctl) :
    readLast len berrs curByte buf s = some (I2cEngine.readLast berrs curByte.toNat buf s) := by
  simp only [readLast,I2cEngine.readLast,put_eq _ _ h]
  split_ifs <;> rfl

theorem readBytes_checked (len : Word) (berrs n fuel : ℕ) (curByte : Word) (buf : Mem Byte)
    (s : Ctl) (hn : curByte.toNat + n + 1 = len.toNat) (hf : n < fuel) :
    readBytes len berrs fuel curByte buf s =
      some (I2cEngine.readBytes berrs n curByte.toNat buf s) := by
  induction n generalizing fuel curByte buf s with
  | zero =>
    obtain ⟨fuel,rfl⟩ := Nat.exists_eq_add_of_lt hf
    have hl : ¬ curByte + 1 < len := by bv_omega
    rw [readBytes,if_neg hl,I2cEngine.readBytes]
    exact readLast_checked (by omega) berrs buf s
  | succ n ih =>
    obtain ⟨fuel,rfl⟩ := Nat.exists_eq_add_of_lt hf
    have hl : curByte + 1 < len := by bv_omega
    have hs : (curByte + 1).toNat = curByte.toNat + 1 := by bv_omega
    have he : (len = curByte + 2) = (n = 0) := by
      rw [eq_iff_iff]
      refine ⟨fun h => ?_,fun h => ?_⟩ <;> bv_omega
    rw [readBytes,if_pos hl,I2cEngine.readBytes]
    simp only [put_eq _ _ (show curByte.toNat < len.toNat by omega),he,Option.bind_eq_bind,
      Option.bind_some]
    split_ifs with h₁ h₂ h₃
    · rfl
    · rfl
    · rw [ih _ _ _ _ (by omega) (by omega),hs]
    · rw [ih _ _ _ _ (by omega) (by omega),hs]

theorem readAttempt_checked (addr : Byte) {len : Word} (hl : 0 < len) (berrs : ℕ) (buf : Mem Byte)
    (s : Ctl) :
    readAttempt addr len berrs buf s =
      some (I2cEngine.readAttempt addr len.toNat berrs buf s) := by
  have hn : 0 < len.toNat := hl
  have h1 : (len = 1) = (len.toNat = 1) := by
    rw [eq_iff_iff]
    refine ⟨fun h => ?_,fun h => ?_⟩ <;> bv_omega
  have hb : ∀ s, readBytes len berrs len.toNat 0 buf s =
      some (I2cEngine.readBytes berrs (len.toNat - 1) 0 buf s) := fun s =>
    readBytes_checked len berrs (len.toNat - 1) len.toNat 0 buf s
      (by simp only [BitVec.ofNat_eq_ofNat,BitVec.toNat_ofNat]; omega) (by omega)
  simp only [readAttempt,I2cEngine.readAttempt,hb,h1,apply_ite some]

theorem readAttempts_checked (addr : Byte) {len : Word} (hl : 0 < len) (fuel berrs : ℕ)
    (buf : Mem Byte) (s : Ctl) :
    readAttempts addr len fuel berrs buf s =
      some (I2cEngine.readAttempts addr len.toNat fuel berrs buf s) := by
  induction fuel generalizing berrs buf s with
  | zero => rfl
  | succ fuel ih =>
    rw [readAttempts,readAttempt_checked addr hl,I2cEngine.readAttempts]
    rcases I2cEngine.readAttempt addr len.toNat berrs buf s with ⟨r | ⟨tries',berrs'⟩,buf',s'⟩
    · rfl
    · exact ih berrs' buf' s'

theorem i2cRead_checked (addr : Byte) {len : Word} (hl : 0 < len) (buf : Mem Byte) (s : Ctl) :
    i2cRead addr len buf s = some (I2cEngine.i2cRead addr len.toNat buf s) :=
  readAttempts_checked addr hl 20 0 buf (clearCancel s)

def lastrdIf (last : Prop) [Decidable last] : List RecvEv := if last then [.lastrd] else []

def clocked : RecvEv → List Byte → List RecvEv
  | _, [] => []
  | e, [d] => [.lastrd,e,.clock,.stop,.byte d]
  | e, d::ds => e::.clock::clocked (.byte d) ds

def attempt (adrs v : Byte) (ds : List Byte) : List RecvEv :=
  .start::.select adrs true::.ack::clocked (.dummy v) ds

theorem clocked_cons (e : RecvEv) (d : Byte) {ds : List Byte} (h : ds ≠ []) :
    clocked e (d::ds) = e::.clock::clocked (.byte d) ds := by
  cases ds with
  | nil => exact absurd rfl h
  | cons d' ds => rfl

/-- From `s` to `s'` the receiver goes from `p` to `p'` with the events `es`. -/
abbrev Receives (s s' : Ctl) (p p' : RecvPhase) (es : List RecvEv) : Prop :=
  Grows receive s.trace s'.trace p p' es

variable {s s' s'' : Ctl} {p p' p'' : RecvPhase} {es es' : List RecvEv}

theorem receives_readCs (s : Ctl) (p : RecvPhase) :
    Receives s (readCs s).2 p (receiveCs (readCs s).1 p).1 (receiveCs (readCs s).1 p).2 :=
  .emit receive s.trace p (.readCs (readCs s).1)

theorem receives_orCs (bit : Byte) (s : Ctl) (p : RecvPhase) :
    Receives s (orCs bit s) p (receive p (.orCs bit 0)).1 (receive p (.orCs bit 0)).2 :=
  .emit receive s.trace p (.orCs bit (s.i2cs s.csReads))

theorem receives_readDat (s : Ctl) (p : RecvPhase) :
    Receives s (readDat s).2 p (receive p (.readDat (readDat s).1)).1
      (receive p (.readDat (readDat s).1)).2 :=
  .emit receive s.trace p (.readDat (readDat s).1)

theorem receives_byte (s : Ctl) :
    Receives s (readDat s).2 .full (.busy true) [.byte (readDat s).1,.clock] :=
  receives_readDat s .full

theorem receives_last (s : Ctl) : Receives s (readDat s).2 .last .off [.byte (readDat s).1] :=
  receives_readDat s .last

theorem receives_stop (s : Ctl) : Receives s (orCs bmStop s) .full .last [.stop] :=
  receives_orCs bmStop s .full

theorem receives_start (s : Ctl) (p : RecvPhase) :
    Receives s (orCs bmStart s) p .started [.start] :=
  receives_orCs bmStart s p

theorem receives_lastrdIf (last : Prop) [Decidable last] (s : Ctl) (p : RecvPhase) :
    Receives s (if last then orCs bmLastrd s else s) p p (lastrdIf last) := by
  unfold lastrdIf
  split_ifs
  · exact receives_orCs bmLastrd s p
  · exact .refl receive s.trace p

/-- The first access to I2DAT finds no byte. -/
theorem receives_dummy (last : Prop) [Decidable last] (s : Ctl) :
    ∃ v : Byte, Receives s (readDat (if last then orCs bmLastrd s else s)).2 .acked (.busy true)
      (lastrdIf last ++ [.dummy v,.clock]) :=
  ⟨_,(receives_lastrdIf last s .acked).trans (receives_readDat _ .acked)⟩

theorem receives_started (h : ¬ (readCs s).1 &&& bmBerr ≠ 0) :
    Receives s (readCs s).2 .started .started [] := by
  have hr := receives_readCs s .started
  rwa [receiveCs,if_neg h] at hr

theorem receives_checked (h : ¬ (readCs s).1 &&& bmBerr ≠ 0) (data : Bool) :
    Receives s (readCs s).2 (.done data) (if data then .full else .answered) [] := by
  have hr := receives_readCs s (.done data)
  rwa [receiveCs,if_neg h] at hr

theorem receives_ack (h : ¬ (readCs s).1 &&& bmAck = 0) :
    Receives s (readCs s).2 .answered .acked [.ack] := by
  have hr := receives_readCs s .answered
  rwa [receiveCs,if_pos h] at hr

theorem readAddress_shift {addr : Byte} (h : addr < 0x80) : readAddress addr >>> 1 = addr := by
  have hm : addr.msb = false := by
    rw [BitVec.msb_eq_false_iff_two_mul_lt]
    bv_omega
  rw [readAddress]
  ext i hi
  by_cases hl : i = 7
  · subst hl
    rw [BitVec.msb_eq_getLsbD_last] at hm
    simpa [BitVec.getLsbD_eq_getElem hi] using hm
  · simp [show 1 + i < 8 by omega]

theorem readAddress_and (addr : Byte) : readAddress addr &&& 1 ≠ 0 := by
  have h : readAddress addr &&& 1 = 1 := by
    rw [readAddress]
    ext i hi
    by_cases hz : i = 0 <;> simp [hz]
  rw [h]
  decide

theorem receives_select {addr : Byte} (ha : addr < 0x80) (s : Ctl) :
    Receives s (writeDat (readAddress addr) s) .started (.busy false) [.select addr true] := by
  have hr := Grows.emit receive s.trace .started (.writeDat (readAddress addr))
  have hb := readAddress_and addr
  rwa [receive,if_pos hb,readAddress_shift ha,decide_eq_true hb] at hr

theorem receives_waitDoneLoop (data : Bool) (limit : ℕ) (s : Ctl)
    (h : (waitDoneLoop limit s).1 = true) :
    Receives s (waitDoneLoop limit s).2 (.busy data) (.done data) [] := by
  induction limit generalizing s with
  | zero => cases h
  | succ limit ih =>
    have hr := receives_readCs s (.busy data)
    cases hc : s.cancel with
    | true =>
      rw [waitDoneLoop] at h
      simp [hc] at h
    | false =>
      by_cases hd : (readCs s).1 &&& bmDone = 0
      · rw [waitDoneLoop_next hc hd] at h ⊢
        rw [receiveCs,if_neg (not_not.mpr hd)] at hr
        exact hr.trans (ih _ h)
      · rw [waitDoneLoop_done hc hd]
        rwa [receiveCs,if_pos hd] at hr

theorem receives_waitDone (data : Bool) (s : Ctl) (h : ¬ (waitDone s).1 = false) :
    Receives s (waitDone s).2 (.busy data) (.done data) [] :=
  receives_waitDoneLoop data i2cWaitLimit s (Bool.not_eq_false _ ▸ h)

theorem receives_waitStopLoop (limit : ℕ) (s : Ctl) :
    Receives s (waitStopLoop limit s) .off .off [] := by
  induction limit generalizing s with
  | zero => exact .refl receive s.trace .off
  | succ limit ih =>
    have hr : Receives s (readCs s).2 .off .off [] := receives_readCs s .off
    simp only [waitStopLoop]
    split_ifs
    · exact hr.trans (ih _)
    · exact hr

theorem berrRead_ret (berrs : ℕ) (s : Ctl) : (berrRead berrs s).1 ≠ .ret true := by
  simp only [berrRead]
  split_ifs <;> simp

/-- A wait in an attempt that succeeds ends with a DONE and without a bus error. -/
theorem awaited_of_ret {berrs : ℕ} {buf : Mem Byte} {r : Bool × Ctl} {x : Exit × Mem Byte × Ctl}
    (h : (if r.1 = false then (Exit.ret false,buf,countTimeoutRead r.2)
      else if (readCs r.2).1 &&& bmBerr ≠ 0 then
        ((berrRead berrs (readCs r.2).2).1,buf,(berrRead berrs (readCs r.2).2).2)
      else x).1 = .ret true) : ¬ r.1 = false ∧ ¬ (readCs r.2).1 &&& bmBerr ≠ 0 := by
  by_cases h₁ : r.1 = false
  · rw [if_pos h₁] at h
    cases h
  by_cases h₂ : (readCs r.2).1 &&& bmBerr ≠ 0
  · rw [if_neg h₁,if_pos h₂] at h
    exact absurd h (berrRead_ret _ _)
  exact ⟨h₁,h₂⟩

theorem readBytes_receives (berrs n i : ℕ) (buf : Mem Byte) (s : Ctl)
    (h : (I2cEngine.readBytes berrs n i buf s).1 = .ret true) :
    ∃ ds es, ds.length = n+1 ∧ (I2cEngine.readBytes berrs n i buf s).2.1 = store buf i ds ∧
      Receives s (I2cEngine.readBytes berrs n i buf s).2.2 (.busy true) .off es ∧
      ∀ e, clocked e ds = lastrdIf (n = 0) ++ e::.clock::es := by
  induction n generalizing i buf s with
  | zero =>
    have hw := receives_waitDone true s
    simp only [I2cEngine.readBytes,I2cEngine.readLast] at h ⊢
    generalize waitDone s = r at h hw ⊢
    obtain ⟨h₁,h₂⟩ := awaited_of_ret h
    rw [if_neg h₁,if_neg h₂]
    have hr := (((hw h₁).trans (receives_checked h₂ true)).trans (receives_stop _)).trans
      (receives_last _)
    exact ⟨[_],_,rfl,rfl,hr.trans (receives_waitStopLoop i2cWaitLimit _),fun e => rfl⟩
  | succ n ih =>
    have hw := receives_waitDone true s
    simp only [I2cEngine.readBytes] at h ⊢
    generalize waitDone s = r at h hw ⊢
    obtain ⟨h₁,h₂⟩ := awaited_of_ret h
    rw [if_neg h₁,if_neg h₂] at h ⊢
    obtain ⟨ds,es,hl,hb,hr,he⟩ := ih _ _ _ h
    have hr' := (((hw h₁).trans (receives_checked h₂ true)).trans
      (receives_lastrdIf (n = 0) _ .full)).trans (receives_byte _)
    refine ⟨_::ds,_,by rw [List.length_cons,hl],hb,hr'.trans hr,fun e => ?_⟩
    have hn : lastrdIf (n+1 = 0) = [] := if_neg (Nat.succ_ne_zero n)
    rw [clocked_cons _ _ (List.ne_nil_of_length_eq_add_one hl),he,hn]
    simp only [List.nil_append,List.append_assoc,List.cons_append]

theorem readAttempt_receives {addr : Byte} (ha : addr < 0x80) {len : ℕ} (hl : 0 < len) (berrs : ℕ)
    (buf : Mem Byte) (s : Ctl) (p : RecvPhase)
    (h : (I2cEngine.readAttempt addr len berrs buf s).1 = .ret true) :
    ∃ v ds, ds.length = len ∧ (I2cEngine.readAttempt addr len berrs buf s).2.1 = store buf 0 ds ∧
      Receives s (I2cEngine.readAttempt addr len berrs buf s).2.2 p .off (attempt addr v ds) := by
  have hr := receives_start s p
  simp only [I2cEngine.readAttempt] at h ⊢
  by_cases h₀ : s.cancel = true
  · rw [if_pos h₀] at h
    cases h
  by_cases h₁ : (readCs (orCs bmStart s)).1 &&& bmBerr ≠ 0
  · rw [if_neg h₀,if_pos h₁] at h
    exact absurd h (berrRead_ret _ _)
  rw [if_neg h₀,if_neg h₁] at h ⊢
  have hs := (hr.trans (receives_started h₁)).trans (receives_select ha _)
  have hw := receives_waitDone false (writeDat (readAddress addr) (readCs (orCs bmStart s)).2)
  generalize waitDone (writeDat (readAddress addr) (readCs (orCs bmStart s)).2) = r at h hw ⊢
  obtain ⟨h₂,h₃⟩ := awaited_of_ret h
  by_cases h₄ : (readCs (readCs r.2).2).1 &&& bmAck = 0
  · rw [if_neg h₂,if_neg h₃,if_pos h₄] at h
    cases h
  rw [if_neg h₂,if_neg h₃,if_neg h₄] at h ⊢
  obtain ⟨ds,es,hd,hb,hf,he⟩ := readBytes_receives _ _ _ _ _ h
  have hk := ((hs.trans (hw h₂)).trans (receives_checked h₃ false)).trans (receives_ack h₄)
  obtain ⟨v,hv⟩ := receives_dummy (len = 1) (readCs (readCs r.2).2).2
  have hh := (hk.trans hv).trans hf
  have h1 : lastrdIf (len-1 = 0) = lastrdIf (len = 1) := by
    congr 1
    rw [eq_iff_iff]
    omega
  refine ⟨v,ds,by omega,hb,?_⟩
  rw [attempt,he,h1]
  simpa only [List.nil_append,List.append_nil,List.append_assoc,List.cons_append] using hh

/-- The last attempt of a call that succeeds. -/
theorem readAttempts_receives {addr : Byte} (ha : addr < 0x80) {len : ℕ} (hl : 0 < len)
    (fuel berrs : ℕ) (buf : Mem Byte) (s : Ctl) (hc : s.cancel = false) (p : RecvPhase)
    (h : (I2cEngine.readAttempts addr len fuel berrs buf s).1 = some true) :
    ∃ pre v, Receives s (I2cEngine.readAttempts addr len fuel berrs buf s).2.2 p .off
      (pre ++ attempt addr v
        (load (I2cEngine.readAttempts addr len fuel berrs buf s).2.1 0 len)) := by
  induction fuel generalizing berrs buf s p with
  | zero => cases h
  | succ fuel ih =>
    obtain ⟨e,es,_,_,hm⟩ := (I2cCall.readAttempt_attempted addr len berrs buf s hc).out
    have hd := readAttempt_receives ha hl berrs buf s p
    rw [I2cEngine.readAttempts] at h ⊢
    rcases he : I2cEngine.readAttempt addr len berrs buf s with ⟨r | ⟨tries',berrs'⟩,buf',s'⟩
    · rw [he] at h hd
      obtain rfl : r = true := Option.some.inj h
      obtain ⟨v,ds,hl,hb,hr⟩ := hd rfl
      refine ⟨[],v,?_⟩
      have hds : load buf' 0 len = ds := by
        simp only at hb
        rw [hb,← hl,load_store]
      rw [List.nil_append]
      simp only [hds]
      exact hr
    · rw [he] at h hm
      obtain ⟨as,ht,_⟩ := hm.trace
      have hr' : Receives s s' p (run receive p as).1 (run receive p as).2 := ⟨as,ht,rfl⟩
      obtain ⟨pre,v,hr⟩ := ih berrs' buf' s' (hm.cancel.trans hc) (run receive p as).1 h
      refine ⟨(run receive p as).2 ++ pre,v,?_⟩
      rw [List.append_assoc]
      exact hr'.trans hr

theorem clocked_start {e : RecvEv} (he : e.taken.isSome) (ds : List Byte) :
    .start ∉ clocked e ds := by
  have hs : .start ≠ e := by
    rintro rfl
    cases he
  induction e, ds using clocked.induct with
  | case1 => exact List.not_mem_nil
  | case2 e d => simp [clocked,hs]
  | case3 e d ds hd ih =>
    rw [clocked_cons e d hd]
    simpa [hs] using ih rfl (by simp)

theorem clocked_received (e : RecvEv) {ds : List Byte} (h : ds ≠ []) :
    (clocked e ds).filterMap RecvEv.received = e.received.toList ++ ds := by
  induction e, ds using clocked.induct with
  | case1 => exact absurd rfl h
  | case2 e d => cases e <;> rfl
  | case3 e d ds hd ih =>
    rw [clocked_cons e d hd]
    cases e <;> simp [List.filterMap_cons,RecvEv.received,ih hd]

theorem clocked_taken {e : RecvEv} {v : Byte} (he : e.taken = some v) {ds : List Byte}
    (h : ds ≠ []) : (clocked e ds).filterMap RecvEv.taken = v::ds := by
  induction e, ds using clocked.induct generalizing v with
  | case1 => exact absurd rfl h
  | case2 e d =>
    have ht : [RecvEv.clock,.stop,.byte d].filterMap RecvEv.taken = [d] := rfl
    rw [clocked,List.filterMap_cons_none rfl,List.filterMap_cons_some he,ht]
  | case3 e d ds hd ih =>
    rw [clocked_cons e d hd,List.filterMap_cons_some he,List.filterMap_cons_none rfl,ih rfl hd]

theorem clocked_clocks {e : RecvEv} (he : e.taken.isSome) (ds : List Byte) :
    (clocked e ds).count .clock = ds.length := by
  have hc : e ≠ .clock := by
    rintro rfl
    cases he
  induction e, ds using clocked.induct with
  | case1 => rfl
  | case2 e d => simp [clocked,hc]
  | case3 e d ds hd ih =>
    rw [clocked_cons e d hd]
    simp [hc,ih rfl (by simp)]

theorem clocked_lastrd {e : RecvEv} (he : e.taken.isSome) {ds : List Byte} (h : ds ≠ []) :
    (clocked e ds).count .lastrd = 1 := by
  have hl : e ≠ .lastrd := by
    rintro rfl
    cases he
  induction e, ds using clocked.induct with
  | case1 => exact absurd rfl h
  | case2 e d => simp [clocked,hl]
  | case3 e d ds hd ih =>
    rw [clocked_cons e d hd]
    simp [hl,ih rfl hd (by simp)]

theorem clocked_ending {e : RecvEv} (he : e.taken.isSome) {ds : List Byte} (h : ds ≠ []) :
    ∃ (t : List RecvEv) (e' : RecvEv) (v : Byte),
      clocked e ds = t ++ [.lastrd,e',.clock,.stop,.byte v] ∧ e'.taken.isSome := by
  induction e, ds using clocked.induct with
  | case1 => exact absurd rfl h
  | case2 e d => exact ⟨[],e,d,rfl,he⟩
  | case3 e d ds hd ih =>
    obtain ⟨t,e',v,ht,he'⟩ := ih rfl hd
    exact ⟨e::.clock::t,e',v,by rw [clocked_cons e d hd,ht]; rfl,he'⟩

theorem reception_attempt (addr v : Byte) {ds : List Byte} (h : ds ≠ []) :
    ∃ t, attempt addr v ds = .start::t ∧ Reception addr ds t := by
  have hv : (RecvEv.dummy v).taken.isSome := rfl
  obtain ⟨t,e,d,ht,he⟩ := clocked_ending hv h
  refine ⟨_,rfl,?_,⟨_,rfl⟩,?_,⟨v,?_⟩,?_,?_,⟨.select addr true::.ack::t,e,d,by rw [ht]; rfl,he⟩⟩
  · simpa using clocked_start hv ds
  · exact clocked_received (.dummy v) h
  · exact clocked_taken rfl h
  · simpa using clocked_clocks hv ds
  · simpa using clocked_lastrd hv h

theorem i2cRead_received {addr : Byte} (ha : addr < 0x80) {len : ℕ} (hl : 0 < len) (buf : Mem Byte)
    (s : Ctl) (h : (I2cEngine.i2cRead addr len buf s).1.getD false = true) :
    ∃ (pre t : List RecvEv), receptions s (I2cEngine.i2cRead addr len buf s).2.2 =
      pre ++ .start::t ∧ Reception addr (load (I2cEngine.i2cRead addr len buf s).2.1 0 len) t := by
  obtain ⟨r,hr⟩ := Option.isSome_iff_exists.mp (i2cRead_isSome addr len buf s)
  rw [hr,Option.getD_some] at h
  obtain ⟨pre,v,hg⟩ := readAttempts_receives ha hl 20 0 buf (clearCancel s) rfl .off (h ▸ hr)
  have hne : load (I2cEngine.i2cRead addr len buf s).2.1 0 len ≠ [] :=
    List.ne_nil_of_length_pos (by rwa [load_length])
  obtain ⟨t,ht,hrec⟩ := reception_attempt addr v hne
  refine ⟨pre,t,?_,hrec⟩
  rw [← ht]
  exact hg.events_eq

/-- No store of `i2c_read` leaves the first `len` cells of the buffer. If it returns TRUE
they hold what the receiver got in the last attempt, which is well formed. -/
theorem read_receives {addr : Byte} (ha : addr < 0x80) {len : Word} (hl : 0 < len)
    (buf : Mem Byte) (s : Ctl) :
    let r := I2cEngine.i2cRead addr len.toNat buf s
    i2cRead addr len buf s = some r ∧
      (∀ j, len.toNat ≤ j → r.2.1 j = buf j) ∧
      (r.1 = some true → ∃ pre t : List RecvEv, receptions s r.2.2 = pre ++ .start::t ∧
        Reception addr (load r.2.1 0 len.toNat) t) := by
  have hn : 0 < len.toNat := hl
  refine ⟨i2cRead_checked addr hl buf s,fun j hj => ?_,fun h => ?_⟩
  · exact I2cCall.i2cRead_frame addr len.toNat buf s (by omega)
  · obtain ⟨pre,v,hr⟩ := readAttempts_receives ha hn 20 0 buf (clearCancel s) rfl .off h
    have hd : load (I2cEngine.i2cRead addr len.toNat buf s).2.1 0 len.toNat ≠ [] := by
      refine List.ne_nil_of_length_pos ?_
      rwa [load_length]
    obtain ⟨t,ht,hrec⟩ := reception_attempt addr v hd
    refine ⟨pre,t,?_,hrec⟩
    rw [← ht]
    exact hr.events_eq

/-- Three bytes `0x00 0x0e 0x47` behind a dummy `0xff`. -/
theorem read_receives_sample :
    let s := Ctl.fresh (fun _ => 0x03) fun i => [0xff,0x00,0x0e,0x47].getD i 0
    ∃ pre t : List RecvEv, receptions s (I2cEngine.i2cRead 0x10 3 (fun _ => 0) s).2.2 =
        pre ++ .start::t ∧
      Reception 0x10 [0x00,0x0e,0x47] t :=
  (read_receives (by decide) (by decide : (0 : Word) < 3) (fun _ => 0) _).2.2 rfl

end I2cReceive
end AkbPcr20x
