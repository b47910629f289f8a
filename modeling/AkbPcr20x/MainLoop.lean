import AkbPcr20x.Basic
import AkbPcr20x.Memory

/-! The firmware's `main_loop`. A pass takes one packet from EP1OUT, walks it with
the first auto-pointer under the down-counter `cmd_cnt`, stores answers through
the second auto-pointer and arms EP1IN with `ret_cnt` bytes. -/
namespace AkbPcr20x
namespace MainLoop

open Memory

/-- The port and FIFO registers that the commands write. -/
inductive Sfr
  | iod | oed | iob | oeb | ifconfig | fiforeset | outpktend
  | ep2fifocfg | ep4fifocfg | ep6fifocfg
  deriving DecidableEq

structure Diag where
  berrReadCnt : Word
  berrWriteCnt : Word
  timeoutReadCnt : Word
  timeoutWriteCnt : Word

/-- What `main_loop` uses of `i2c.c` and of the pins. The state stands for
everything behind these calls, so one board covers every I2C outcome. -/
structure Board (σ : Type) where
  i2cWrite : Byte → List Byte → σ → Bool × σ
  i2cRead : Byte → ℕ → Mem Byte → σ → Bool × Mem Byte × σ
  diag : σ → Diag
  pins : Sfr → σ → Byte × σ

structure Core (σ : Type) where
  sfr : Sfr → Byte
  valIfconfig : Byte
  addrMask : Byte
  i2cbf : Mem Byte
  i2cReadErrcnt : Word
  i2cWriteErrcnt : Word
  world : σ

/-- What a pass does to the outside, in order. -/
inductive Ev
  | i2cWrite (adrs : Byte) (data : List Byte) (ret : Bool)
  | i2cRead (adrs : Byte) (len : ℕ) (ret : Bool) (data : List Byte)
  | readErrcnt
  | writeErrcnt
  | sfr (r : Sfr) (v : Byte)
  deriving DecidableEq

/-- The locals of `main_loop` and the two endpoint buffers. `ap1` and `ap2` count
the bytes moved through the auto-pointers, `turns` the commands taken; `aborted`
is set where the source clears `cmd_cnt`. -/
structure Pass (σ : Type) where
  core : Core σ
  outBuf : Mem Byte
  inBuf : Mem Byte
  ap1 : ℕ
  ap2 : ℕ
  cmdCnt : Byte
  retCnt : Byte
  turns : ℕ
  aborted : Bool
  log : List Ev

def i2cBufLen : ℕ := 16
def modeIdle : Byte := 0x00
def modeRegr : Byte := 0x40
def modeRegw : Byte := 0x80
def modeStart : Byte := 0xc0

inductive Op
  | i2cRead | i2cWrite | i2cStatus | regWrite | regRead | portWrite | portRead | portCfg
  | ifconfig | ep6inStart | ep6inStop | ep4inStart | ep4inStop | ep2outStart | ep2outStop
  | modeIdle | none
  deriving DecidableEq

def Op.ofByte (x : Byte) : Op :=
  if x = 0x60 then .i2cRead
  else if x = 0x61 then .i2cWrite
  else if x = 0x62 then .i2cStatus
  else if x = 0x56 then .regWrite
  else if x = 0x55 then .regRead
  else if x = 0x58 then .portWrite
  else if x = 0x57 then .portRead
  else if x = 0x54 then .portCfg
  else if x = 0x59 then .ifconfig
  else if x = 0x50 then .ep6inStart
  else if x = 0x51 then .ep6inStop
  else if x = 0x5b then .ep4inStart
  else if x = 0x5c then .ep4inStop
  else if x = 0x52 then .ep2outStart
  else if x = 0x53 then .ep2outStop
  else if x = 0x5a then .modeIdle
  else .none

variable {σ : Type}

namespace Pass

/-- The byte under the first auto-pointer. -/
def xautodat1 (l : Pass σ) : Byte := l.outBuf l.ap1

def skip (l : Pass σ) (n : ℕ) : Pass σ := {l with ap1 := l.ap1 + n}

/-- `XAUTODAT2 = v` -/
def put (l : Pass σ) (v : Byte) : Pass σ :=
  {l with inBuf := Function.update l.inBuf l.ap2 v, ap2 := l.ap2 + 1}

def countRet (l : Pass σ) (n : Byte) : Pass σ := {l with retCnt := l.retCnt + n}

def countCmd (l : Pass σ) (n : Byte) : Pass σ := {l with cmdCnt := l.cmdCnt - n}

def abort (l : Pass σ) : Pass σ := {l with cmdCnt := 0, aborted := true}

def emit (l : Pass σ) (e : Ev) : Pass σ := {l with log := l.log ++ [e]}

def setSfr (l : Pass σ) (r : Sfr) (v : Byte) : Pass σ :=
  ({l with core := {l.core with sfr := Function.update l.core.sfr r v}}).emit (.sfr r v)

def portValue (b : Board σ) (l : Pass σ) (port oe : Sfr) : Byte :=
  (l.core.sfr port &&& l.core.sfr oe) ||| ((b.pins port l.core.world).1 &&& ~~~ l.core.sfr oe)

def portRead (b : Board σ) (l : Pass σ) (port : Sfr) : Pass σ :=
  {l with core := {l.core with world := (b.pins port l.core.world).2}}

/-- `for (i = 0; i < len; i++) { i2cbf[i] = XAUTODAT1; cmd_cnt--; }`, the first
argument being the turns left. -/
def fillBuf : ℕ → ℕ → Pass σ → Pass σ
  | 0, _, l => l
  | n+1, i, l =>
    fillBuf n (i+1)
      (({l with core := {l.core with i2cbf := Function.update l.core.i2cbf i l.xautodat1}}).skip 1
        |>.countCmd 1)

/-- `for (i = 0; i < len; i++) { XAUTODAT2 = i2cbf[i]; ret_cnt++; }` -/
def copyBuf : ℕ → ℕ → Pass σ → Pass σ
  | 0, _, l => l
  | n+1, i, l => copyBuf n (i+1) ((l.put (l.core.i2cbf i)).countRet 1)

def cmdI2cRead (b : Board σ) (l : Pass σ) : Pass σ :=
  if l.cmdCnt < 2 then l.abort
  else
    let adrs := l.xautodat1
    let l := l.skip 1
    let len := l.xautodat1
    let l := (l.skip 1).countCmd 2
    if i2cBufLen < len.toNat then l.abort
    else
      let r := b.i2cRead adrs len.toNat l.core.i2cbf l.core.world
      let l := ({l with core := {l.core with i2cbf := r.2.1, world := r.2.2}}).emit
        (.i2cRead adrs len.toNat r.1 (load r.2.1 0 len.toNat))
      if r.1 then copyBuf len.toNat 0 l
      else
        ({l with core := {l.core with i2cReadErrcnt := l.core.i2cReadErrcnt + 1}}).emit .readErrcnt

def cmdI2cWrite (b : Board σ) (l : Pass σ) : Pass σ :=
  if l.cmdCnt < 2 then l.abort
  else
    let adrs := l.xautodat1
    let l := l.skip 1
    let len := l.xautodat1
    let l := (l.skip 1).countCmd 2
    if i2cBufLen < len.toNat ∨ l.cmdCnt < len then l.abort
    else
      let l := fillBuf len.toNat 0 l
      let data := load l.core.i2cbf 0 len.toNat
      let r := b.i2cWrite adrs data l.core.world
      let l := ({l with core := {l.core with world := r.2}}).emit (.i2cWrite adrs data r.1)
      if r.1 then l
      else
        ({l with core := {l.core with i2cWriteErrcnt := l.core.i2cWriteErrcnt + 1}}).emit
          .writeErrcnt

def cmdI2cStatus (b : Board σ) (l : Pass σ) : Pass σ :=
  let d := b.diag l.core.world
  (((((((((((l.put (msb l.core.i2cReadErrcnt)).put (lsb l.core.i2cReadErrcnt)
    ).put (msb l.core.i2cWriteErrcnt)).put (lsb l.core.i2cWriteErrcnt)
    ).put (msb d.berrReadCnt)).put (lsb d.berrReadCnt)
    ).put (msb d.berrWriteCnt)).put (lsb d.berrWriteCnt)
    ).put (msb d.timeoutReadCnt)).put (lsb d.timeoutReadCnt)
    ).put (msb d.timeoutWriteCnt)).put (lsb d.timeoutWriteCnt) |>.countRet 12

def cmdRegWrite (b : Board σ) (l : Pass σ) : Pass σ :=
  if l.cmdCnt < 2 then l.abort
  else
    let iod := l.portValue b .iod .oed
    let l := l.portRead b .iod
    let l := (l.setSfr .iod (modeRegw ||| (iod &&& l.core.addrMask) ||| l.xautodat1)).skip 1
    let l := (l.setSfr .ifconfig 0xe0).setSfr .oeb 0xff
    ((l.setSfr .iob l.xautodat1).skip 1).countCmd 2

def cmdRegRead (b : Board σ) (l : Pass σ) : Pass σ :=
  if l.cmdCnt < 1 then l.abort
  else
    let iod := l.portValue b .iod .oed
    let l := l.portRead b .iod
    let l := (l.setSfr .iod (modeRegr ||| (iod &&& l.core.addrMask) ||| l.xautodat1)).skip 1
    let l := (l.setSfr .ifconfig 0xe0).setSfr .oeb 0x00
    let iob := l.portValue b .iob .oeb
    (((l.portRead b .iob).put iob).countRet 1).countCmd 1

def cmdPortWrite (b : Board σ) (l : Pass σ) : Pass σ :=
  if l.cmdCnt < 1 then l.abort
  else
    let iod := l.portValue b .iod .oed
    let l := l.portRead b .iod
    ((l.setSfr .iod ((iod &&& ~~~ l.core.addrMask) ||| l.xautodat1)).skip 1).countCmd 1

def cmdPortRead (b : Board σ) (l : Pass σ) : Pass σ :=
  let iod := l.portValue b .iod .oed
  ((l.portRead b .iod).put iod).countRet 1

def cmdPortCfg (l : Pass σ) : Pass σ :=
  if l.cmdCnt < 2 then l.abort
  else
    let l := ({l with core := {l.core with addrMask := l.xautodat1 ||| 0xc0}}).skip 1
    let l := (l.setSfr .oed (l.xautodat1 ||| l.core.addrMask)).skip 1
    ({l with core := {l.core with addrMask := ~~~ l.core.addrMask}}).countCmd 2

def cmdIfconfig (l : Pass σ) : Pass σ :=
  if l.cmdCnt < 1 then l.abort
  else (({l with core := {l.core with valIfconfig := l.xautodat1}}).skip 1).countCmd 1

/-- `IOD = mode | (IOD & 0x3f)` -/
def setMode (b : Board σ) (mode : Byte) (l : Pass σ) : Pass σ :=
  let iod := l.portValue b .iod .oed
  (l.portRead b .iod).setSfr .iod (mode ||| (iod &&& 0x3f))

def cmdEp6inStart (b : Board σ) (l : Pass σ) : Pass σ :=
  setMode b modeStart
    (((l.setSfr .ifconfig l.core.valIfconfig).setSfr .fiforeset 0x06).setSfr .ep6fifocfg 0x0c)

def cmdEp4inStart (b : Board σ) (l : Pass σ) : Pass σ :=
  setMode b modeStart
    (((l.setSfr .ifconfig l.core.valIfconfig).setSfr .fiforeset 0x04).setSfr .ep4fifocfg 0x0c)

def cmdEp2outStart (b : Board σ) (l : Pass σ) : Pass σ :=
  setMode b modeStart
    ((((((l.setSfr .ifconfig l.core.valIfconfig).setSfr .fiforeset 0x02).setSfr .outpktend 0x82
      ).setSfr .outpktend 0x82).setSfr .outpktend 0x82).setSfr .outpktend 0x82
      |>.setSfr .ep2fifocfg 0x10)

def exec (b : Board σ) : Op → Pass σ → Pass σ
  | .i2cRead => cmdI2cRead b
  | .i2cWrite => cmdI2cWrite b
  | .i2cStatus => cmdI2cStatus b
  | .regWrite => cmdRegWrite b
  | .regRead => cmdRegRead b
  | .portWrite => cmdPortWrite b
  | .portRead => cmdPortRead b
  | .portCfg => cmdPortCfg
  | .ifconfig => cmdIfconfig
  | .ep6inStart => cmdEp6inStart b
  | .ep6inStop => fun l => l.setSfr .ep6fifocfg 0x04
  | .ep4inStart => cmdEp4inStart b
  | .ep4inStop => fun l => l.setSfr .ep4fifocfg 0x04
  | .ep2outStart => cmdEp2outStart b
  | .ep2outStop => fun l => l.setSfr .ep2fifocfg 0x04
  | .modeIdle => setMode b modeIdle
  | .none => id

def turn (b : Board σ) (l : Pass σ) : Pass σ :=
  let op := Op.ofByte l.xautodat1
  exec b op {l.skip 1 with turns := l.turns + 1}

/-- The command loop: `cmd_cnt--` happens in the exit test, also the last time. -/
def loop (b : Board σ) : ℕ → Pass σ → Pass σ
  | 0, l => l
  | fuel+1, l =>
    if l.cmdCnt = 0 then l.countCmd 1 else loop b fuel (turn b (l.countCmd 1))

end Pass

/-- The firmware with its endpoint 1: the busy bits of EP1OUTCS and EP1INCS, the
buffers and the byte counts. -/
structure Fw (σ : Type) where
  core : Core σ
  outBusy : Bool
  inBusy : Bool
  outBuf : Mem Byte
  outBc : Byte
  inBuf : Mem Byte
  inBc : Byte

def start (fw : Fw σ) : Pass σ where
  core := fw.core
  outBuf := fw.outBuf
  inBuf := fw.inBuf
  ap1 := 0
  ap2 := 0
  cmdCnt := fw.outBc
  retCnt := 0
  turns := 0
  aborted := false
  log := []

/-- Each turn lowers `cmd_cnt`, so 256 turns are enough for any count. -/
def pass (b : Board σ) (fw : Fw σ) : Pass σ := (start fw).loop b 256

/-- Writing EP1OUTBC arms EP1OUT again; writing EP1INBC arms EP1IN. -/
def mainLoop (b : Board σ) (fw : Fw σ) : Fw σ :=
  if fw.outBusy then fw
  else if fw.inBusy then fw
  else
    let l := pass b fw
    let fw := {fw with core := l.core, outBusy := true, inBuf := l.inBuf}
    if l.retCnt ≠ 0 then {fw with inBc := l.retCnt, inBusy := true} else fw

end MainLoop
end AkbPcr20x
