import AkbPcr20x.Basic
import AkbPcr20x.TunerInstances

/-! The ISDB-T tuner driver: register tables in the tuner state, which each
`mxl5007t_set_params` computes anew and writes to the chip. The mutex makes a call one
step; the I2C gate of the frontend and the delays leave no trace in the registers. -/
namespace AkbPcr20x
namespace Mxl5007t

open TunerInstances (transferred mxlFail)

inductive Mode
  | isdbt
  | dvbt
  | atsc
  | cable
  deriving DecidableEq

def Mode.val : Mode → ℕ
  | .isdbt => 0
  | .dvbt => 1
  | .atsc => 2
  | .cable => 0x10

inductive IfFreq
  | if4Mhz
  | if4_5Mhz
  | if4_57Mhz
  | if5Mhz
  | if5_38Mhz
  | if6Mhz
  | if6_28Mhz
  | if9_1915Mhz
  | if35_25Mhz
  | if36_15Mhz
  | if44Mhz
  | other (n : U32)

inductive XtalFreq
  | xtal16Mhz
  | xtal20Mhz
  | xtal20_25Mhz
  | xtal20_48Mhz
  | xtal24Mhz
  | xtal25Mhz
  | xtal25_14Mhz
  | xtal27Mhz
  | xtal28_8Mhz
  | xtal32Mhz
  | xtal40Mhz
  | xtal44Mhz
  | xtal48Mhz
  | xtal49_3811Mhz
  | other (n : U32)

inductive ClkoutAmp
  | amp0_94V
  | amp0_53V
  | amp0_37V
  | amp0_28V
  | amp0_23V
  | amp0_20V
  | amp0_17V
  | amp0_15V
  | other (n : U32)

def ClkoutAmp.val : ClkoutAmp → Byte
  | .amp0_94V => 0
  | .amp0_53V => 1
  | .amp0_37V => 2
  | .amp0_28V => 3
  | .amp0_23V => 4
  | .amp0_20V => 5
  | .amp0_17V => 6
  | .amp0_15V => 7
  | .other n => n.setWidth 8

inductive BwMhz
  | bw6Mhz
  | bw7Mhz
  | bw8Mhz
  | other (n : U32)

inductive Delsys
  | atsc
  | dvbcAnnexB
  | dvbt
  | dvbt2
  | isdbt
  | other (n : U32)

/-- What a call reads of `struct mxl5007t_config`. -/
structure Config where
  ifDiffOutLevel : ℤ
  clkOutAmp : ClkoutAmp
  xtalFreqHz : XtalFreq
  ifFreqHz : IfFreq
  invertIf : Bool
  clkOutEnable : Bool

structure RegPair where
  reg : Byte
  val : Byte
  deriving DecidableEq

/-- `reg_pair[i].reg || reg_pair[i].val`: the pair is not the terminator. -/
def RegPair.live (p : RegPair) : Bool := p.reg != 0 || p.val != 0

/-- The pairs in front of the terminator. -/
def writes (t : List RegPair) : List RegPair := t.takeWhile (·.live)

def initTab : List RegPair :=
  [⟨0x02,0x06⟩,⟨0x03,0x48⟩,⟨0x05,0x04⟩,⟨0x06,0x10⟩,⟨0x2e,0x15⟩,⟨0x30,0x10⟩,⟨0x45,0x58⟩,
    ⟨0x48,0x19⟩,⟨0x52,0x03⟩,⟨0x53,0x44⟩,⟨0x6a,0x4b⟩,⟨0x76,0x00⟩,⟨0x78,0x18⟩,⟨0x7a,0x17⟩,
    ⟨0x85,0x06⟩,⟨0x01,0x01⟩,⟨0,0⟩]

def initTabCable : List RegPair :=
  [⟨0x02,0x06⟩,⟨0x03,0x48⟩,⟨0x05,0x04⟩,⟨0x06,0x10⟩,⟨0x09,0x3f⟩,⟨0x0a,0x3f⟩,⟨0x0b,0x3f⟩,
    ⟨0x2e,0x15⟩,⟨0x30,0x10⟩,⟨0x45,0x58⟩,⟨0x48,0x19⟩,⟨0x52,0x03⟩,⟨0x53,0x44⟩,⟨0x6a,0x4b⟩,
    ⟨0x76,0x00⟩,⟨0x78,0x18⟩,⟨0x7a,0x17⟩,⟨0x85,0x06⟩,⟨0x01,0x01⟩,⟨0,0⟩]

def regPairRftune : List RegPair :=
  [⟨0x0f,0x00⟩,⟨0x0c,0x15⟩,⟨0x0d,0x40⟩,⟨0x0e,0x0e⟩,⟨0x1f,0x87⟩,⟨0x20,0x1f⟩,⟨0x21,0x87⟩,
    ⟨0x22,0x1f⟩,⟨0x80,0x01⟩,⟨0x0f,0x01⟩,⟨0,0⟩]

/-- `struct mxl5007t_state` without its links, its lock and the chip id. -/
structure State where
  config : Config
  tabInit : List RegPair
  tabInitCable : List RegPair
  tabRftune : List RegPair
  ifFreq : IfFreq
  frequency : U32
  bandwidth : U32

def State.fresh (cfg : Config) : State :=
  ⟨cfg,initTab.map fun _ => ⟨0,0⟩,initTabCable.map fun _ => ⟨0,0⟩,regPairRftune.map fun _ => ⟨0,0⟩,
    .if4Mhz,0,0⟩

def setRegBits (reg mask val : Byte) : List RegPair → List RegPair
  | [] => []
  | p::t =>
    if p.live then
      (if p.reg = reg then {p with val := (p.val &&& ~~~mask) ||| val} else p)::
        setRegBits reg mask val t
    else p::t

/-- The inner loop of `copy_reg_bits`: what it passes over, and the table from `j` on. -/
def copyVal (p : RegPair) : List RegPair → List RegPair × List RegPair
  | [] => ([],[])
  | q::t =>
    if q.live then
      if p.reg ≠ q.reg then
        let r := copyVal p t
        (q::r.1,r.2)
      else ([],{q with val := p.val}::t)
    else ([],q::t)

/-- `copy_reg_bits`: `j` goes on from where the last register was found. -/
def copyRegBits : List RegPair → List RegPair → List RegPair
  | [], t₂ => t₂
  | p::t₁, t₂ =>
    if p.live then
      let r := copyVal p t₂
      r.1 ++ copyRegBits t₁ r.2
    else t₂

def setModeBits (mode : Mode) (ifDiffOutLevel : ℤ) (s : State) : State :=
  match mode with
  | .atsc => {s with tabInit := setRegBits 0x06 0x1f 0x12 s.tabInit}
  | .dvbt => {s with tabInit := setRegBits 0x06 0x1f 0x11 s.tabInit}
  | .isdbt => {s with tabInit := setRegBits 0x06 0x1f 0x10 s.tabInit}
  | .cable =>
    let t := setRegBits 0x09 0xff 0xc1 s.tabInitCable
    let t := setRegBits 0x0a 0xff (BitVec.ofInt 8 (8 - ifDiffOutLevel)) t
    {s with tabInitCable := setRegBits 0x0b 0xff 0x17 t}

def IfFreq.bits : IfFreq → Option Byte
  | .if4Mhz => some 0x00
  | .if4_5Mhz => some 0x02
  | .if4_57Mhz => some 0x03
  | .if5Mhz => some 0x04
  | .if5_38Mhz => some 0x05
  | .if6Mhz => some 0x06
  | .if6_28Mhz => some 0x07
  | .if9_1915Mhz => some 0x08
  | .if35_25Mhz => some 0x09
  | .if36_15Mhz => some 0x0a
  | .if44Mhz => some 0x0b
  | .other _ => none

def setIfFreqBits (ifFreq : IfFreq) (invertIf : Bool) (s : State) : State :=
  match ifFreq.bits with
  | none => s
  | some val =>
    let t := setRegBits 0x02 0x0f val s.tabInit
    {s with tabInit := setRegBits 0x02 0x10 (if invertIf then 0x10 else 0x00) t, ifFreq := ifFreq}

def XtalFreq.bits : XtalFreq → Option (Byte × Byte)
  | .xtal16Mhz => some (0x00,0x00)
  | .xtal20Mhz => some (0x10,0x01)
  | .xtal20_25Mhz => some (0x20,0x02)
  | .xtal20_48Mhz => some (0x30,0x03)
  | .xtal24Mhz => some (0x40,0x04)
  | .xtal25Mhz => some (0x50,0x05)
  | .xtal25_14Mhz => some (0x60,0x06)
  | .xtal27Mhz => some (0x70,0x07)
  | .xtal28_8Mhz => some (0x80,0x08)
  | .xtal32Mhz => some (0x90,0x09)
  | .xtal40Mhz => some (0xa0,0x0a)
  | .xtal44Mhz => some (0xb0,0x0b)
  | .xtal48Mhz => some (0xc0,0x0c)
  | .xtal49_3811Mhz => some (0xd0,0x0d)
  | .other _ => none

def setXtalFreqBits (xtalFreq : XtalFreq) (s : State) : State :=
  match xtalFreq.bits with
  | none => s
  | some val =>
    {s with tabInit := setRegBits 0x05 0x0f val.2 (setRegBits 0x03 0xf0 val.1 s.tabInit)}

def calcInitRegs (mode : Mode) (s : State) : List RegPair × State :=
  let cfg := s.config
  let s := {s with tabInit := initTab, tabInitCable := initTabCable}
  let s := setModeBits mode cfg.ifDiffOutLevel s
  let s := setIfFreqBits cfg.ifFreqHz cfg.invertIf s
  let s := setXtalFreqBits cfg.xtalFreqHz s
  let t := setRegBits 0x03 0x08 (if cfg.clkOutEnable then (1 : Byte) <<< 3 else 0) s.tabInit
  let s := {s with tabInit := setRegBits 0x03 0x07 cfg.clkOutAmp.val t}
  if Mode.cable.val ≤ mode.val then
    let s := {s with tabInitCable := copyRegBits s.tabInit s.tabInitCable}
    (s.tabInitCable,s)
  else (s.tabInit,s)

def BwMhz.bits : BwMhz → Option Byte
  | .bw6Mhz => some 0x15
  | .bw7Mhz => some 0x2a
  | .bw8Mhz => some 0x3f
  | .other _ => none

def setBwBits (bw : BwMhz) (s : State) : State :=
  match bw.bits with
  | none => s
  | some val => {s with tabRftune := setRegBits 0x0c 0x3f val s.tabRftune}

structure RfSplit where
  digRfFreq : U32
  temp : U32
  fracDivider : U32

def RfSplit.turn (l : RfSplit) : RfSplit :=
  let digRfFreq := l.digRfFreq <<< 1
  let fracDivider := l.fracDivider / 2
  if fracDivider < l.temp then ⟨digRfFreq + 1,l.temp - fracDivider,fracDivider⟩
  else ⟨digRfFreq,l.temp,fracDivider⟩

def RfSplit.loop : ℕ → RfSplit → RfSplit
  | 0, l => l
  | n+1, l => loop n l.turn

def mhz : U32 := 1000000

def digRfFreq (rfFreq : U32) : U32 :=
  let l := RfSplit.loop 6 ⟨rfFreq / mhz,rfFreq % mhz,1000000⟩
  if 7812 < l.temp then l.digRfFreq + 1 else l.digRfFreq

def calcRfTuneRegs (rfFreq : U32) (bw : BwMhz) (s : State) : List RegPair × State :=
  let s := {s with tabRftune := regPairRftune}
  let s := setBwBits bw s
  let dig := digRfFreq rfFreq
  let t := setRegBits 0x0d 0xff (dig.setWidth 8) s.tabRftune
  let t := setRegBits 0x0e 0xff ((dig >>> 8).setWidth 8) t
  let t := if 333000000 ≤ rfFreq then setRegBits 0x80 0x40 0x40 t else t
  (t,{s with tabRftune := t})

/-- The tuner state and the register writes put on the bus since it was attached. -/
structure Tuner where
  state : State
  sent : List RegPair

variable (bus : ℕ → ℤ)

/-- `mxl5007t_write_reg`; the transfers of the tuner return `bus 0`, `bus 1` and so on. -/
def writeReg (reg val : Byte) (s : Tuner) : ℤ × Tuner :=
  (transferred 1 (bus s.sent.length),{s with sent := s.sent ++ [⟨reg,val⟩]})

def writeRegs : List RegPair → Tuner → ℤ × Tuner
  | [], s => (0,s)
  | p::t, s =>
    if p.live then
      let r := writeReg bus p.reg p.val s
      if r.1 = 0 then writeRegs t r.2 else r
    else (0,s)

def tunerInit (mode : Mode) (s : Tuner) : ℤ × Tuner :=
  let r := calcInitRegs mode s.state
  writeRegs bus r.1 {s with state := r.2}

def tunerRfTune (rfFreqHz : U32) (bw : BwMhz) (s : Tuner) : ℤ × Tuner :=
  let r := calcRfTuneRegs rfFreqHz bw s.state
  writeRegs bus r.1 {s with state := r.2}

/-- What `mxl5007t_set_params` reads of `dtv_property_cache`. -/
structure Props where
  deliverySystem : Delsys
  frequency : U32
  bandwidthHz : U32

/-- The two switches of `mxl5007t_set_params`; none stands for `-EINVAL`. -/
def Props.select (c : Props) : Option (Mode × BwMhz) :=
  match c.deliverySystem with
  | .atsc => some (.atsc,.bw6Mhz)
  | .dvbcAnnexB => some (.cable,.bw6Mhz)
  | .dvbt | .dvbt2 =>
    if c.bandwidthHz = 6000000 then some (.dvbt,.bw6Mhz)
    else if c.bandwidthHz = 7000000 then some (.dvbt,.bw7Mhz)
    else if c.bandwidthHz = 8000000 then some (.dvbt,.bw8Mhz)
    else none
  | .isdbt => some (.isdbt,.bw6Mhz)
  | .other _ => none

def setParams (c : Props) (s : Tuner) : ℤ × Tuner :=
  match c.select with
  | none => (-Errno.einval,s)
  | some (mode,bw) =>
    let r := tunerInit bus mode s
    if mxlFail r.1 then r
    else
      let r := tunerRfTune bus c.frequency bw r.2
      if mxlFail r.1 then r
      else (r.1,{r.2 with state :=
        {r.2.state with frequency := c.frequency, bandwidth := c.bandwidthHz}})

def init (s : Tuner) : ℤ × Tuner := writeReg bus 0x01 0x01 s

def sleep (s : Tuner) : ℤ × Tuner :=
  let r := writeReg bus 0x01 0x00 s
  writeReg bus 0x0f 0x00 r.2

def getFrequency (s : Tuner) : U32 := s.state.frequency

def getBandwidth (s : Tuner) : U32 := s.state.bandwidth

end Mxl5007t
end AkbPcr20x
