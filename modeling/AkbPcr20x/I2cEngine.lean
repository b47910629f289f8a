import AkbPcr20x.MainLoop

/-! The I2C engine of the firmware, `i2c.c`. The controller is given by what
successive reads of I2CS and I2DAT return, so that one state stands for any bus.
Every register access is recorded. `delay` has no effect here. -/
namespace AkbPcr20x
namespace I2cEngine

open Memory MainLoop

def bmStart : Byte := 0x80
def bmStop : Byte := 0x40
def bmLastrd : Byte := 0x20
def bmBerr : Byte := 0x04
def bmAck : Byte := 0x02
def bmDone : Byte := 0x01
def i2cBerrMaxRetry : ℕ := 20
def i2cWaitLimit : ℕ := 60000

inductive Access
  | readCs (v : Byte)
  | orCs (bit v : Byte)
  | readDat (v : Byte)
  | writeDat (v : Byte)
  deriving DecidableEq

/-- The controller as an oracle, the statics of `i2c.c` and the accesses so far. -/
structure Ctl where
  i2cs : ℕ → Byte
  i2dat : ℕ → Byte
  csReads : ℕ
  datReads : ℕ
  cancel : Bool
  diag : Diag
  trace : List Access

def Ctl.emit (s : Ctl) (a : Access) : Ctl := {s with trace := s.trace ++ [a]}

def readCs (s : Ctl) : Byte × Ctl :=
  let v := s.i2cs s.csReads
  (v,({s with csReads := s.csReads + 1}).emit (.readCs v))

def orCs (bit : Byte) (s : Ctl) : Ctl :=
  ({s with csReads := s.csReads + 1}).emit (.orCs bit (s.i2cs s.csReads))

def readDat (s : Ctl) : Byte × Ctl :=
  let v := s.i2dat s.datReads
  (v,({s with datReads := s.datReads + 1}).emit (.readDat v))

def writeDat (v : Byte) (s : Ctl) : Ctl := s.emit (.writeDat v)

/-- `CHECK_I2C_CANCEL` and the loops look at this flag; only a call's start writes it. -/
def clearCancel (s : Ctl) : Ctl := {s with cancel := false}

def countBerrWrite (s : Ctl) : Ctl :=
  {s with diag := {s.diag with berrWriteCnt := s.diag.berrWriteCnt + 1}}

def countTimeoutWrite (s : Ctl) : Ctl :=
  {s with diag := {s.diag with timeoutWriteCnt := s.diag.timeoutWriteCnt + 1}}

def countBerrRead (s : Ctl) : Ctl :=
  {s with diag := {s.diag with berrReadCnt := s.diag.berrReadCnt + 1}}

def countTimeoutRead (s : Ctl) : Ctl :=
  {s with diag := {s.diag with timeoutReadCnt := s.diag.timeoutReadCnt + 1}}

def waitDoneLoop : ℕ → Ctl → Bool × Ctl
  | 0, s => (false,s)
  | limit+1, s =>
    let r := readCs s
    if r.1 &&& bmDone = 0 ∧ s.cancel = false then waitDoneLoop limit r.2 else (!s.cancel,r.2)

def waitDone (s : Ctl) : Bool × Ctl := waitDoneLoop i2cWaitLimit s

def waitStopLoop : ℕ → Ctl → Ctl
  | 0, s => s
  | limit+1, s =>
    let r := readCs s
    if r.1 &&& bmStop ≠ 0 ∧ s.cancel = false then waitStopLoop limit r.2 else r.2

def waitStop (s : Ctl) : Ctl := waitStopLoop i2cWaitLimit s

/-- How an attempt ends: the call returns, or it goes back to its first label with
the retry counts. -/
inductive Exit
  | ret (r : Bool)
  | again (retryCount berrRetry : ℕ)
  deriving DecidableEq

/-- A bus error in a write: count it, and give up at the retry limit. -/
def berrWrite (retryCount berrRetry : ℕ) (s : Ctl) : Exit × Ctl :=
  let s := countBerrWrite s
  if i2cBerrMaxRetry ≤ berrRetry + 1 then (.ret false,countTimeoutWrite s)
  else (.again retryCount (berrRetry + 1),s)

def writeAddress (addr : Byte) : Byte := addr <<< 1

def readAddress (addr : Byte) : Byte := (addr <<< 1) ||| 1

def outByte (addrBuf dataBuf : List Byte) (curByte : ℕ) : Byte :=
  if curByte < addrBuf.length then addrBuf.getD curByte 0
  else dataBuf.getD (curByte - addrBuf.length) 0

/-- The byte loop of a write from byte `curByte` on, with the turns left first. -/
def writeBytes (addrBuf dataBuf : List Byte) (retryCount berrRetry : ℕ) :
    ℕ → ℕ → Ctl → Exit × Ctl
  | 0, _, s =>
    let s := waitStop (orCs bmStop s)
    (.ret (!s.cancel),s)
  | n+1, curByte, s =>
    let r := waitDone (writeDat (outByte addrBuf dataBuf curByte) s)
    if r.1 = false then (.ret false,countTimeoutWrite r.2)
    else
      let v := readCs r.2
      if v.1 &&& bmBerr ≠ 0 then berrWrite retryCount berrRetry v.2
      else
        let a := readCs v.2
        if a.1 &&& bmAck = 0 then (.ret false,waitStop (orCs bmStop a.2))
        else writeBytes addrBuf dataBuf retryCount berrRetry n (curByte + 1) a.2

/-- `i2c_write` from `step1` to the next jump to it. -/
def writeAttempt (addr : Byte) (addrBuf dataBuf : List Byte) (retryCount berrRetry : ℕ)
    (s : Ctl) : Exit × Ctl :=
  if s.cancel then (.ret false,s)
  else
    let v := readCs (orCs bmStart s)
    if v.1 &&& bmBerr ≠ 0 then berrWrite retryCount berrRetry v.2
    else
      let r := waitDone (writeDat (writeAddress addr) v.2)
      if r.1 = false then (.ret false,countTimeoutWrite r.2)
      else
        let v := readCs r.2
        if v.1 &&& bmBerr ≠ 0 then berrWrite retryCount berrRetry v.2
        else
          let a := readCs v.2
          if a.1 &&& bmAck = 0 then
            let s := waitStop (orCs bmStop a.2)
            if s.cancel then (.ret false,s)
            else if retryCount - 1 = 0 then (.ret false,s)
            else (.again (retryCount - 1) berrRetry,s)
          else
            writeBytes addrBuf dataBuf retryCount berrRetry
              ((addrBuf.length + dataBuf.length) % 2^16) 0 a.2

/-- The attempts of a write; `none` when the attempts allowed are used up. -/
def writeAttempts (addr : Byte) (addrBuf dataBuf : List Byte) :
    ℕ → ℕ → ℕ → Ctl → Option Bool × Ctl
  | 0, _, _, s => (none,s)
  | fuel+1, retryCount, berrRetry, s =>
    match writeAttempt addr addrBuf dataBuf retryCount berrRetry s with
    | (.ret r,s) => (some r,s)
    | (.again retryCount berrRetry,s) =>
      writeAttempts addr addrBuf dataBuf fuel retryCount berrRetry s

/-- Two address attempts share twenty bus errors, so 21 attempts are enough. -/
def i2cWrite (addr : Byte) (addrBuf dataBuf : List Byte) (s : Ctl) : Option Bool × Ctl :=
  writeAttempts addr addrBuf dataBuf 21 2 0 (clearCancel s)

def berrRead (berrRetry : ℕ) (s : Ctl) : Exit × Ctl :=
  let s := countBerrRead s
  if i2cBerrMaxRetry ≤ berrRetry + 1 then (.ret false,countTimeoutRead s)
  else (.again 0 (berrRetry + 1),s)

def readLast (berrRetry curByte : ℕ) (buf : Mem Byte) (s : Ctl) : Exit × Mem Byte × Ctl :=
  let r := waitDone s
  if r.1 = false then (.ret false,buf,countTimeoutRead r.2)
  else
    let v := readCs r.2
    if v.1 &&& bmBerr ≠ 0 then
      let e := berrRead berrRetry v.2
      (e.1,buf,e.2)
    else
      let d := readDat (orCs bmStop v.2)
      let s := waitStop d.2
      (.ret (!s.cancel),Function.update buf curByte d.1,s)

/-- The byte loop of a read, the turns left first; `len` is `n + curByte + 1`. -/
def readBytes (berrRetry : ℕ) : ℕ → ℕ → Mem Byte → Ctl → Exit × Mem Byte × Ctl
  | 0, curByte, buf, s => readLast berrRetry curByte buf s
  | n+1, curByte, buf, s =>
    let r := waitDone s
    if r.1 = false then (.ret false,buf,countTimeoutRead r.2)
    else
      let v := readCs r.2
      if v.1 &&& bmBerr ≠ 0 then
        let e := berrRead berrRetry v.2
        (e.1,buf,e.2)
      else
        let s := if n = 0 then orCs bmLastrd v.2 else v.2
        let d := readDat s
        readBytes berrRetry n (curByte + 1) (Function.update buf curByte d.1) d.2

/-- `i2c_read` from `start` to the next jump to it. -/
def readAttempt (addr : Byte) (len berrRetry : ℕ) (buf : Mem Byte) (s : Ctl) :
    Exit × Mem Byte × Ctl :=
  if s.cancel then (.ret false,buf,s)
  else
    let v := readCs (orCs bmStart s)
    if v.1 &&& bmBerr ≠ 0 then
      let e := berrRead berrRetry v.2
      (e.1,buf,e.2)
    else
      let r := waitDone (writeDat (readAddress addr) v.2)
      if r.1 = false then (.ret false,buf,countTimeoutRead r.2)
      else
        let v := readCs r.2
        if v.1 &&& bmBerr ≠ 0 then
          let e := berrRead berrRetry v.2
          (e.1,buf,e.2)
        else
          let a := readCs v.2
          if a.1 &&& bmAck = 0 then (.ret false,buf,waitStop (orCs bmStop a.2))
          else
            let s := if len = 1 then orCs bmLastrd a.2 else a.2
            readBytes berrRetry (len - 1) 0 buf (readDat s).2

/-- The attempts of a read; `none` when the attempts allowed are used up. -/
def readAttempts (addr : Byte) (len : ℕ) :
    ℕ → ℕ → Mem Byte → Ctl → Option Bool × Mem Byte × Ctl
  | 0, _, buf, s => (none,buf,s)
  | fuel+1, berrRetry, buf, s =>
    match readAttempt addr len berrRetry buf s with
    | (.ret r,buf,s) => (some r,buf,s)
    | (.again _ berrRetry,buf,s) => readAttempts addr len fuel berrRetry buf s

def i2cRead (addr : Byte) (len : ℕ) (buf : Mem Byte) (s : Ctl) : Option Bool × Mem Byte × Ctl :=
  readAttempts addr len 20 0 buf (clearCancel s)

/-- The engine as the board of `main_loop`, with the levels of the input pins. -/
def board (pins : Sfr → Byte) : Board Ctl where
  i2cWrite adrs data s :=
    let r := i2cWrite adrs data [] s
    (r.1.getD false,r.2)
  i2cRead adrs len buf s :=
    let r := i2cRead adrs len buf s
    (r.1.getD false,r.2)
  diag s := s.diag
  pins r s := (pins r,s)

def Ctl.fresh (i2cs i2dat : ℕ → Byte) : Ctl := ⟨i2cs,i2dat,0,0,false,⟨0,0,0,0⟩,[]⟩

/-- A jump back costs one of twenty bus errors. -/
theorem berrRead_again {br rc' br' : ℕ} {s : Ctl} (h : (berrRead br s).1 = .again rc' br') :
    br' = br+1 ∧ br' < 20 := by
  by_cases hb : i2cBerrMaxRetry ≤ br+1
  · simp [berrRead,hb] at h
  · simp only [berrRead,hb,if_false,Exit.again.injEq] at h
    simp only [i2cBerrMaxRetry] at hb
    omega

theorem readLast_again {br curByte rc' br' : ℕ} {buf : Mem Byte} {s : Ctl}
    (h : (readLast br curByte buf s).1 = .again rc' br') : br' = br+1 ∧ br' < 20 := by
  simp only [readLast] at h
  split_ifs at h with h₁ h₂
  · exact berrRead_again h

theorem readBytes_again {br n curByte rc' br' : ℕ} {buf : Mem Byte} {s : Ctl}
    (h : (readBytes br n curByte buf s).1 = .again rc' br') : br' = br+1 ∧ br' < 20 := by
  induction n generalizing curByte buf s with
  | zero => exact readLast_again h
  | succ n ih =>
    simp only [readBytes] at h
    split_ifs at h with h₁ h₂ h₃
    · exact berrRead_again h
    · exact ih h
    · exact ih h

theorem readAttempt_again {addr : Byte} {len br rc' br' : ℕ} {buf : Mem Byte} {s : Ctl}
    (h : (readAttempt addr len br buf s).1 = .again rc' br') : br' = br+1 ∧ br' < 20 := by
  simp only [readAttempt] at h
  split_ifs at h with h₁ h₂ h₃ h₄ h₅ h₆
  · exact berrRead_again h
  · exact berrRead_again h
  · exact readBytes_again h
  · exact readBytes_again h

theorem readAttempts_isSome (addr : Byte) (len fuel br : ℕ) (buf : Mem Byte) (s : Ctl)
    (hb : br < 20) (hf : 20-br ≤ fuel) : (readAttempts addr len fuel br buf s).1.isSome := by
  induction fuel generalizing br buf s with
  | zero => omega
  | succ fuel ih =>
    rw [readAttempts]
    rcases he : readAttempt addr len br buf s with ⟨r | ⟨rc',br'⟩,buf',s'⟩
    · rfl
    · have ha := readAttempt_again (congrArg Prod.fst he)
      exact ih br' buf' s' ha.2 (by omega)

theorem i2cRead_isSome (addr : Byte) (len : ℕ) (buf : Mem Byte) (s : Ctl) :
    (i2cRead addr len buf s).1.isSome :=
  readAttempts_isSome addr len 20 0 buf _ (by omega) (by omega)

end I2cEngine
end AkbPcr20x
