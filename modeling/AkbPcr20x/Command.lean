import AkbPcr20x.Decoder
import AkbPcr20x.MainLoop

/-! The command language of the firmware: what a packet says, and what each command
does. A pass of `main_loop` runs exactly the commands its packet decodes to, up to the
first one that is not well formed. -/
namespace AkbPcr20x
namespace Command

open Memory MainLoop

inductive Cmd
  | i2cRead (adrs len : Byte)
  | i2cWrite (adrs : Byte) (data : List Byte)
  | i2cStatus
  | regWrite (addr value : Byte)
  | regRead (addr : Byte)
  | portWrite (value : Byte)
  | portRead
  | portCfg (mask dir : Byte)
  | ifconfig (value : Byte)
  | ep6inStart
  | ep6inStop
  | ep4inStart
  | ep4inStop
  | ep2outStart
  | ep2outStop
  | modeIdle
  | unknown

inductive Stop
  | done
  | malformed
  deriving DecidableEq

def operand₁ (f : Byte → Cmd) : List Byte → Except Stop (Cmd × List Byte)
  | x::p => .ok (f x,p)
  | _ => .error .malformed

def operand₂ (f : Byte → Byte → Cmd) : List Byte → Except Stop (Cmd × List Byte)
  | x::y::p => .ok (f x y,p)
  | _ => .error .malformed

def readOperands : List Byte → Except Stop (Cmd × List Byte)
  | adrs::len::p => if i2cBufLen < len.toNat then .error .malformed else .ok (.i2cRead adrs len,p)
  | _ => .error .malformed

def writeOperands : List Byte → Except Stop (Cmd × List Byte)
  | adrs::len::p =>
    if i2cBufLen < len.toNat ∨ p.length < len.toNat then .error .malformed
    else .ok (.i2cWrite adrs (p.take len.toNat),p.drop len.toNat)
  | _ => .error .malformed

def operands : Op → List Byte → Except Stop (Cmd × List Byte)
  | .i2cRead => readOperands
  | .i2cWrite => writeOperands
  | .i2cStatus => fun p => .ok (.i2cStatus,p)
  | .regWrite => operand₂ .regWrite
  | .regRead => operand₁ .regRead
  | .portWrite => operand₁ .portWrite
  | .portRead => fun p => .ok (.portRead,p)
  | .portCfg => operand₂ .portCfg
  | .ifconfig => operand₁ .ifconfig
  | .ep6inStart => fun p => .ok (.ep6inStart,p)
  | .ep6inStop => fun p => .ok (.ep6inStop,p)
  | .ep4inStart => fun p => .ok (.ep4inStart,p)
  | .ep4inStop => fun p => .ok (.ep4inStop,p)
  | .ep2outStart => fun p => .ok (.ep2outStart,p)
  | .ep2outStop => fun p => .ok (.ep2outStop,p)
  | .modeIdle => fun p => .ok (.modeIdle,p)
  | .none => fun p => .ok (.unknown,p)

def next : List Byte → Except Stop (Cmd × List Byte)
  | [] => .error .done
  | x::p => operands (Op.ofByte x) p

theorem operands_length {op : Op} {p q : List Byte} {c : Cmd} (h : operands op p = .ok (c,q)) :
    q.length ≤ p.length := by
  have h₁ : ∀ f, operand₁ f p = .ok (c,q) → q.length ≤ p.length := by
    intro f hf
    rcases p with _ | ⟨x,p⟩ <;> simp only [operand₁,reduceCtorEq,Except.ok.injEq,Prod.mk.injEq] at hf
    rw [← hf.2]
    simp
  have h₂ : ∀ f, operand₂ f p = .ok (c,q) → q.length ≤ p.length := by
    intro f hf
    rcases p with _ | ⟨x,_ | ⟨y,p⟩⟩ <;>
      simp only [operand₂,reduceCtorEq,Except.ok.injEq,Prod.mk.injEq] at hf
    rw [← hf.2]
    simp only [List.length_cons]
    omega
  cases op with
  | i2cRead =>
    rcases p with _ | ⟨x,_ | ⟨y,p⟩⟩ <;> simp only [operands,readOperands,reduceCtorEq] at h
    split at h
    · cases h
    · simp only [Except.ok.injEq,Prod.mk.injEq] at h
      rw [← h.2]
      simp only [List.length_cons]
      omega
  | i2cWrite =>
    rcases p with _ | ⟨x,_ | ⟨y,p⟩⟩ <;> simp only [operands,writeOperands,reduceCtorEq] at h
    split at h
    · cases h
    · simp only [Except.ok.injEq,Prod.mk.injEq] at h
      rw [← h.2]
      simp only [List.length_cons,List.length_drop]
      omega
  | regWrite => exact h₂ _ h
  | portCfg => exact h₂ _ h
  | regRead => exact h₁ _ h
  | portWrite => exact h₁ _ h
  | ifconfig => exact h₁ _ h
  | _ =>
    simp only [operands,Except.ok.injEq,Prod.mk.injEq] at h
    rw [h.2]

def commands : Decoder Byte Cmd Stop where
  next := next
  shrinks p c q h := by
    cases p with
    | nil => cases h
    | cons x p => exact Nat.lt_succ_of_le (operands_length h)

variable {σ : Type}

def setSfrs (c : Core σ) (ws : List (Sfr × Byte)) : Core σ :=
  {c with sfr := ws.foldl (fun s w => Function.update s w.1 w.2) c.sfr}

/-- The value of a port: the latch on output pins, the outside on input pins. -/
def portValue (b : Board σ) (c : Core σ) (port oe : Sfr) : Byte :=
  (c.sfr port &&& c.sfr oe) ||| ((b.pins port c.world).1 &&& ~~~ c.sfr oe)

def afterPins (b : Board σ) (c : Core σ) (port : Sfr) : Core σ :=
  {c with world := (b.pins port c.world).2}

/-- The effect of a command: the new state, the events and the answer bytes. -/
structure Effect (σ : Type) where
  core : Core σ
  log : List Ev
  answer : List Byte

def Effect.ofWrites (c : Core σ) (ws : List (Sfr × Byte)) : Effect σ :=
  ⟨setSfrs c ws,ws.map fun w => .sfr w.1 w.2,[]⟩

def statusBytes (b : Board σ) (c : Core σ) : List Byte :=
  let d := b.diag c.world
  [c.i2cReadErrcnt,c.i2cWriteErrcnt,d.berrReadCnt,d.berrWriteCnt,d.timeoutReadCnt,
    d.timeoutWriteCnt].flatMap fun w => [msb w,lsb w]

def runRead (b : Board σ) (c : Core σ) (adrs len : Byte) : Effect σ :=
  let r := b.i2cRead adrs len.toNat c.i2cbf c.world
  let data := load r.2.1 0 len.toNat
  let c := {c with i2cbf := r.2.1, world := r.2.2}
  if r.1 then ⟨c,[.i2cRead adrs len.toNat true data],data⟩
  else ⟨{c with i2cReadErrcnt := c.i2cReadErrcnt + 1},
    [.i2cRead adrs len.toNat false data,.readErrcnt],[]⟩

def runWrite (b : Board σ) (c : Core σ) (adrs : Byte) (data : List Byte) : Effect σ :=
  let r := b.i2cWrite adrs data c.world
  let c := {c with i2cbf := store c.i2cbf 0 data, world := r.2}
  if r.1 then ⟨c,[.i2cWrite adrs data true],[]⟩
  else ⟨{c with i2cWriteErrcnt := c.i2cWriteErrcnt + 1},
    [.i2cWrite adrs data false,.writeErrcnt],[]⟩

/-- A start command: the FIFO writes, then the mode pins. -/
def runStart (b : Board σ) (c : Core σ) (ws : List (Sfr × Byte)) (mode : Byte) : Effect σ :=
  let c' := setSfrs c ws
  let iod := portValue b c' .iod .oed
  Effect.ofWrites (afterPins b c .iod) (ws ++ [(.iod,mode ||| (iod &&& 0x3f))])

def Cmd.run (b : Board σ) (c : Core σ) : Cmd → Effect σ
  | .i2cRead adrs len => runRead b c adrs len
  | .i2cWrite adrs data => runWrite b c adrs data
  | .i2cStatus => ⟨c,[],statusBytes b c⟩
  | .regWrite addr value =>
    Effect.ofWrites (afterPins b c .iod)
      [(.iod,modeRegw ||| (portValue b c .iod .oed &&& c.addrMask) ||| addr),(.ifconfig,0xe0),
        (.oeb,0xff),(.iob,value)]
  | .regRead addr =>
    let e := Effect.ofWrites (afterPins b c .iod)
      [(.iod,modeRegr ||| (portValue b c .iod .oed &&& c.addrMask) ||| addr),(.ifconfig,0xe0),
        (.oeb,0x00)]
    ⟨afterPins b e.core .iob,e.log,[portValue b e.core .iob .oeb]⟩
  | .portWrite value =>
    Effect.ofWrites (afterPins b c .iod)
      [(.iod,(portValue b c .iod .oed &&& ~~~ c.addrMask) ||| value)]
  | .portRead => ⟨afterPins b c .iod,[],[portValue b c .iod .oed]⟩
  | .portCfg mask dir =>
    Effect.ofWrites {c with addrMask := ~~~ (mask ||| 0xc0)} [(.oed,dir ||| (mask ||| 0xc0))]
  | .ifconfig value => ⟨{c with valIfconfig := value},[],[]⟩
  | .ep6inStart =>
    runStart b c [(.ifconfig,c.valIfconfig),(.fiforeset,0x06),(.ep6fifocfg,0x0c)] modeStart
  | .ep6inStop => Effect.ofWrites c [(.ep6fifocfg,0x04)]
  | .ep4inStart =>
    runStart b c [(.ifconfig,c.valIfconfig),(.fiforeset,0x04),(.ep4fifocfg,0x0c)] modeStart
  | .ep4inStop => Effect.ofWrites c [(.ep4fifocfg,0x04)]
  | .ep2outStart =>
    runStart b c [(.ifconfig,c.valIfconfig),(.fiforeset,0x02),(.outpktend,0x82),
      (.outpktend,0x82),(.outpktend,0x82),(.outpktend,0x82),(.ep2fifocfg,0x10)] modeStart
  | .ep2outStop => Effect.ofWrites c [(.ep2fifocfg,0x04)]
  | .modeIdle => runStart b c [] MainLoop.modeIdle
  | .unknown => ⟨c,[],[]⟩

def runAll (b : Board σ) (c : Core σ) : List Cmd → Effect σ
  | [] => ⟨c,[],[]⟩
  | k::ks =>
    let e := k.run b c
    let r := runAll b e.core ks
    ⟨r.core,e.log ++ r.log,e.answer ++ r.answer⟩

theorem runAll_append (b : Board σ) (c : Core σ) (ks ks' : List Cmd) :
    (runAll b c (ks ++ ks')).core = (runAll b (runAll b c ks).core ks').core := by
  induction ks generalizing c with
  | nil => rfl
  | cons k ks ih => exact ih _

end Command
end AkbPcr20x
