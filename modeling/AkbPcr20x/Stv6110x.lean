import AkbPcr20x.Basic
import AkbPcr20x.BitField
import AkbPcr20x.Memory

/-! The ISDB-S tuner driver: shadow registers, the chip behind I2C, and the operations that
change fields of the shadow registers and write them to the chip. The delays between status
reads leave no trace. -/
namespace AkbPcr20x
namespace Stv6110x

open Memory

/-- What the operations use of `struct stv6110x_config`. They divide by `refclk / 1000`. -/
structure Config where
  refclk : U32
  clkDiv : Byte
  refclk_khz : 1000 ≤ refclk

def ctrl1 : ℕ := 0x00
def ctrl2 : ℕ := 0x01
def tng0 : ℕ := 0x02
def tng1 : ℕ := 0x03
def ctrl3 : ℕ := 0x04
def stat1 : ℕ := 0x05

/-- A register and a field in it, as `stv6110x_reg.h` names them. -/
structure Field where
  reg : ℕ
  bits : BitField 8

def ctrl1K : Field := ⟨ctrl1,⟨3,5,by decide⟩⟩
def ctrl1Lpt : Field := ⟨ctrl1,⟨2,1,by decide⟩⟩
def ctrl1Rx : Field := ⟨ctrl1,⟨1,1,by decide⟩⟩
def ctrl1Syn : Field := ⟨ctrl1,⟨0,1,by decide⟩⟩
def ctrl2CoDiv : Field := ⟨ctrl2,⟨6,2,by decide⟩⟩
def tng0NDiv : Field := ⟨tng0,⟨0,8,by decide⟩⟩
def tng1RDiv : Field := ⟨tng1,⟨6,2,by decide⟩⟩
def tng1Presc32On : Field := ⟨tng1,⟨5,1,by decide⟩⟩
def tng1Div4sel : Field := ⟨tng1,⟨4,1,by decide⟩⟩
def tng1NDiv : Field := ⟨tng1,⟨0,4,by decide⟩⟩
def ctrl3RcclkOff : Field := ⟨ctrl3,⟨6,1,by decide⟩⟩
def ctrl3Cf : Field := ⟨ctrl3,⟨0,5,by decide⟩⟩
def stat1CalvcoStrt : Field := ⟨stat1,⟨2,1,by decide⟩⟩
def stat1CalrcStrt : Field := ⟨stat1,⟨1,1,by decide⟩⟩

/-- `STV6110x_GETFIELD` -/
def Field.get (f : Field) (regs : Mem Byte) : U32 := f.bits.get 32 (regs f.reg)

/-- What the I2C side decides: the results of the write and of the read transfers, the
status that a read finds, and what a failed write leaves in the chip. -/
structure Bus where
  write : ℕ → ℤ
  read : ℕ → ℤ
  stat : ℕ → Byte
  lost : ℕ → Mem Byte → Mem Byte

structure Write where
  start : ℕ
  data : List Byte
  deriving DecidableEq

/-- The shadow registers and the chip, with the write transfers, the number of read
transfers and the field assignments so far. -/
structure Tuner where
  regs : Mem Byte
  chip : Mem Byte
  sent : List Write
  reads : ℕ
  fields : List (Field × U32)

def maxXferSize : ℕ := 64
def trials : ℕ := 10

def Tuner.setField (f : Field) (val : U32) (s : Tuner) : Tuner :=
  {s with regs := Function.update s.regs f.reg (f.bits.put val (s.regs f.reg)),
          fields := s.fields ++ [(f,val)]}

def Tuner.setFields (l : List (Field × U32)) (s : Tuner) : Tuner :=
  l.foldl (fun s a => s.setField a.1 a.2) s

variable (cfg : Config) (bus : Bus)

def Config.refclockKhz : U32 := cfg.refclk / 1000

def Config.refclockMhz : U32 := cfg.refclk / 1000000

/-- `stv6110x_read_reg` into the shadow register of the same number, as all callers have it.
The chip keeps the control and tuning registers; the others report its status. -/
def readReg (reg : ℕ) (s : Tuner) : ℤ × Tuner :=
  let v := if reg < stat1 then s.chip reg else bus.stat s.reads
  let ret := bus.read s.reads
  let s := {s with reads := s.reads + 1}
  if ret ≠ 2 then (-Errno.eremoteio,s)
  else (0,{s with regs := Function.update s.regs reg v})

def writeRegs (start : ℕ) (data : List Byte) (s : Tuner) : ℤ × Tuner :=
  if maxXferSize < 1 + data.length then (-Errno.einval,s)
  else if 8 < start + data.length then (-Errno.einval,s)
  else
    let k := s.sent.length
    let s := {s with sent := s.sent ++ [Write.mk start data]}
    if bus.write k ≠ 1 then (-Errno.eremoteio,{s with chip := bus.lost k s.chip})
    else (0,{s with chip := store s.chip start data})

def writeReg (reg : ℕ) (data : Byte) (s : Tuner) : ℤ × Tuner := writeRegs bus reg [data] s

def init (s : Tuner) : ℤ × Tuner :=
  let r := writeRegs bus 0 (load s.regs 0 8) s
  if r.1 < 0 then (-1,r.2) else (0,r.2)

/-- `TNG1_DIV4SEL`, `TNG1_PRESC32_ON` and `pVal` of the band. -/
def band (frequency : U32) : U32 × U32 × ℤ :=
  if frequency ≤ 1023000 then (1,0,40)
  else if frequency ≤ 1300000 then (1,1,40)
  else if frequency ≤ 2046000 then (0,0,20)
  else (0,1,20)

def rDivVal (div : ℕ) : U32 := (1 : U32) <<< (div + 1)

/-- `(REFCLOCK_kHz / 100) / R_DIV(rDiv)` as an `s32`. -/
def pCalc (rDiv : ℕ) : ℤ := (cfg.refclockKhz / 100 / rDivVal rDiv).toInt

/-- A turn of the search, which keeps `rDivOpt` and `pCalcOpt`. -/
def searchTurn (pVal : ℤ) (s : ℕ × ℤ) (rDiv : ℕ) : ℕ × ℤ :=
  let rDivOpt := if |pCalc cfg rDiv - pVal| < |s.2 - pVal| then rDiv else s.1
  (rDivOpt,pCalc cfg rDivOpt)

def rDivOpt (pVal : ℤ) : ℕ := ([0,1,2,3].foldl (searchTurn cfg pVal) (0,1000)).1

/-- The divider in steps of 1000 kHz. -/
def divider (frequency : U32) : U32 :=
  let pVal := (band frequency).2.2
  let divider := frequency * rDivVal (rDivOpt cfg pVal) * BitVec.ofInt 32 pVal / cfg.refclockKhz
  (divider + 5) / 10

def frequencyFields (frequency : U32) : List (Field × U32) :=
  let b := band frequency
  [(ctrl1K,cfg.refclockMhz - 16),(tng1Div4sel,b.1),(tng1Presc32On,b.2.1),
    (tng1RDiv,BitVec.ofNat 32 (rDivOpt cfg b.2.2)),(tng1NDiv,divider cfg frequency >>> 8 &&& 0xff),
    (tng0NDiv,divider cfg frequency &&& 0xff),(stat1CalvcoStrt,1)]

/-- The loop over `TRIALS` that waits for the chip to clear a field of STAT1. -/
def waitStat1 (f : Field) : ℕ → Tuner → Tuner
  | 0, s => s
  | n+1, s =>
    let s := (readReg bus stat1 s).2
    if f.get s.regs = 0 then s else waitStat1 f n s

def setFrequency (frequency : U32) (s : Tuner) : ℤ × Tuner :=
  let s := s.setFields (frequencyFields cfg frequency)
  let s := (writeReg bus ctrl1 (s.regs ctrl1) s).2
  let s := (writeReg bus tng1 (s.regs tng1) s).2
  let s := (writeReg bus tng0 (s.regs tng0) s).2
  let s := (writeReg bus stat1 (s.regs stat1) s).2
  (0,waitStat1 bus stat1CalvcoStrt trials s)

def getFrequency (s : Tuner) : U32 × Tuner :=
  let s := (readReg bus tng1 s).2
  let s := (readReg bus tng0 s).2
  let frequency := (tng1NDiv.get s.regs <<< 8 ||| tng0NDiv.get s.regs) * cfg.refclockKhz
  let frequency := frequency / ((1 : U32) <<< (tng1RDiv.get s.regs + tng1Div4sel.get s.regs).toNat)
  (frequency >>> 2,s)

/-- The cut-off of the low-pass filter as `CTRL3_CF` encodes it. -/
def cutOff (bandwidth : U32) : U32 :=
  let halfbw := bandwidth >>> 1
  if 36000000 < halfbw then 31
  else if halfbw < 5000000 then 0
  else halfbw / 1000000 - 5

def bandwidthFields (bandwidth : U32) : List (Field × U32) :=
  [(ctrl3Cf,cutOff bandwidth),(ctrl3RcclkOff,0),(stat1CalrcStrt,1)]

def setBandwidth (bandwidth : U32) (s : Tuner) : ℤ × Tuner :=
  let s := s.setFields (bandwidthFields bandwidth)
  let s := (writeReg bus ctrl3 (s.regs ctrl3) s).2
  let s := (writeReg bus stat1 (s.regs stat1) s).2
  let s := waitStat1 bus stat1CalrcStrt trials s
  let s := s.setField ctrl3RcclkOff 1
  (0,(writeReg bus ctrl3 (s.regs ctrl3) s).2)

def getBandwidth (s : Tuner) : U32 × Tuner :=
  let s := (readReg bus ctrl3 s).2
  ((ctrl3Cf.get s.regs + 5) * 2000000,s)

inductive TunerMode
  | sleep
  | wake

def setMode (mode : TunerMode) (s : Tuner) : ℤ × Tuner :=
  let on : U32 := match mode with
    | .sleep => 0
    | .wake => 1
  let s := s.setFields [(ctrl1Syn,on),(ctrl1Rx,on),(ctrl1Lpt,on)]
  let r := writeReg bus ctrl1 (s.regs ctrl1) s
  if r.1 < 0 then (-Errno.eio,r.2) else (0,r.2)

def sleep (s : Tuner) : ℤ × Tuner := setMode bus .sleep s

def defaultRegs : List Byte := [0x07,0x11,0xdc,0x85,0x17,0x01,0xe6,0x1e]

def initRegs (s : Tuner) : Tuner := {s with regs := store s.regs 0 defaultRegs}

def setupDivider (s : Tuner) : Tuner :=
  if cfg.clkDiv = 2 then s.setField ctrl2CoDiv 1
  else if cfg.clkDiv = 4 then s.setField ctrl2CoDiv 2
  else if cfg.clkDiv = 8 ∨ cfg.clkDiv = 0 then s.setField ctrl2CoDiv 3
  else s.setField ctrl2CoDiv 0

/-- `stv6110x_set_params`; each function it calls is checked for a negative result. -/
def setParams (frequency bandwidthHz : U32) (s : Tuner) : ℤ × Tuner :=
  let s := initRegs s
  let s := setupDivider cfg s
  let r := init bus s
  if r.1 < 0 then r
  else
    let r := setFrequency cfg bus frequency r.2
    if r.1 < 0 then r
    else
      let r := setBandwidth bus bandwidthHz r.2
      if r.1 < 0 then r else (0,r.2)

@[simp] theorem setField_chip (f : Field) (v : U32) (s : Tuner) :
    (s.setField f v).chip = s.chip := rfl

@[simp] theorem setField_sent (f : Field) (v : U32) (s : Tuner) :
    (s.setField f v).sent = s.sent := rfl

@[simp] theorem setField_reads (f : Field) (v : U32) (s : Tuner) :
    (s.setField f v).reads = s.reads := rfl

@[simp] theorem setField_fields (f : Field) (v : U32) (s : Tuner) :
    (s.setField f v).fields = s.fields ++ [(f,v)] := rfl

theorem setField_regs_self (f : Field) (v : U32) (s : Tuner) :
    (s.setField f v).regs f.reg = f.bits.put v (s.regs f.reg) := Function.update_self _ _ _

theorem setField_regs_of_ne {f : Field} {r : ℕ} (h : r ≠ f.reg) (v : U32) (s : Tuner) :
    (s.setField f v).regs r = s.regs r := Function.update_of_ne h _ _

theorem get_setField (f : Field) {v : U32} (hv : f.bits.Holds v) (s : Tuner) :
    f.get (s.setField f v).regs = v := by
  rw [Field.get,setField_regs_self]
  exact f.bits.get_put (by decide) hv _

theorem get_setField_of_apart {f g : Field} (h : g.reg ≠ f.reg ∨ f.bits.Apart g.bits) {v : U32}
    (hv : f.bits.Holds v) (s : Tuner) : g.get (s.setField f v).regs = g.get s.regs := by
  by_cases hr : g.reg = f.reg
  · have ha := h.resolve_left (not_not_intro hr)
    rw [Field.get,Field.get,hr,setField_regs_self]
    exact f.bits.get_put_of_apart g.bits (by decide) ha hv _
  · rw [Field.get,setField_regs_of_ne hr,Field.get]

theorem setFields_keeps (l : List (Field × U32)) (s : Tuner) :
    let t := s.setFields l
    t.chip = s.chip ∧ t.sent = s.sent ∧ t.reads = s.reads ∧ t.fields = s.fields ++ l := by
  induction l generalizing s with
  | nil => exact ⟨rfl,rfl,rfl,(List.append_nil _).symm⟩
  | cons a l ih =>
    obtain ⟨hc,hs,hr,hf⟩ := ih (s.setField a.1 a.2)
    exact ⟨hc,hs,hr,hf.trans (by rw [setField_fields,List.append_assoc]; rfl)⟩

@[simp] theorem setFields_chip (l : List (Field × U32)) (s : Tuner) :
    (s.setFields l).chip = s.chip := (setFields_keeps l s).1

@[simp] theorem setFields_sent (l : List (Field × U32)) (s : Tuner) :
    (s.setFields l).sent = s.sent := (setFields_keeps l s).2.1

@[simp] theorem setFields_reads (l : List (Field × U32)) (s : Tuner) :
    (s.setFields l).reads = s.reads := (setFields_keeps l s).2.2.1

@[simp] theorem setFields_fields (l : List (Field × U32)) (s : Tuner) :
    (s.setFields l).fields = s.fields ++ l := (setFields_keeps l s).2.2.2

theorem Field.get_congr {g : Field} {regs regs' : Mem Byte} (h : regs g.reg = regs' g.reg) :
    g.get regs = g.get regs' := by
  rw [Field.get,h,Field.get]

/-- All values fit into their fields. -/
def Fit (l : List (Field × U32)) : Prop := ∀ a ∈ l, a.1.bits.Holds a.2

def Field.Apart (f g : Field) : Prop := g.reg ≠ f.reg ∨ f.bits.Apart g.bits

instance (f g : Field) : Decidable (f.Apart g) :=
  inferInstanceAs (Decidable (g.reg ≠ f.reg ∨ (_ ≤ _ ∨ _ ≤ _)))

theorem get_setFields_of_apart {l : List (Field × U32)} {g : Field} (hl : Fit l)
    (h : ∀ f ∈ l.map (·.1), f.Apart g) (s : Tuner) : g.get (s.setFields l).regs = g.get s.regs := by
  induction l generalizing s with
  | nil => rfl
  | cons a l ih =>
    rw [List.map_cons,List.forall_mem_cons] at h
    have ha := get_setField_of_apart h.1 (hl a (by simp)) s
    exact (ih (fun b hb => hl b (by simp [hb])) h.2 _).trans ha

/-- Assignments that fit, to fields without common bits, are all read back. -/
theorem get_setFields {l : List (Field × U32)} (hl : Fit l)
    (hp : (l.map (·.1)).Pairwise fun f g => g.Apart f) (s : Tuner) :
    ∀ a ∈ l, a.1.get (s.setFields l).regs = a.2 := by
  induction l generalizing s with
  | nil => intro a ha; cases ha
  | cons b l ih =>
    have hl' : Fit l := fun c hc => hl c (by simp [hc])
    rw [List.map_cons,List.pairwise_cons] at hp
    intro a ha
    rcases List.mem_cons.mp ha with rfl | ha
    · exact (get_setFields_of_apart hl' hp.1 _).trans (get_setField a.1 (hl a (by simp)) s)
    · exact ih hl' hp.2 _ a ha

theorem writeRegs_eq {start : ℕ} {data : List Byte} (h : start + data.length ≤ 8) (s : Tuner) :
    writeRegs bus start data s =
      if bus.write s.sent.length = 1 then
        (0,{s with sent := s.sent ++ [⟨start,data⟩], chip := store s.chip start data})
      else (-Errno.eremoteio,
        {s with sent := s.sent ++ [⟨start,data⟩], chip := bus.lost s.sent.length s.chip}) := by
  rw [writeRegs,if_neg (by rw [maxXferSize]; omega),if_neg (by omega)]
  by_cases hk : bus.write s.sent.length = 1
  · simp [hk]
  · simp [hk]

theorem writeReg_eq {reg : ℕ} (h : reg < 8) (data : Byte) (s : Tuner) :
    writeReg bus reg data s =
      if bus.write s.sent.length = 1 then
        (0,{s with sent := s.sent ++ [⟨reg,[data]⟩], chip := Function.update s.chip reg data})
      else (-Errno.eremoteio,
        {s with sent := s.sent ++ [⟨reg,[data]⟩], chip := bus.lost s.sent.length s.chip}) :=
  writeRegs_eq bus (by rw [List.length_singleton]; omega) s

theorem writeReg_sent {reg : ℕ} (h : reg < 8) (data : Byte) (s : Tuner) :
    (writeReg bus reg data s).2.sent = s.sent ++ [⟨reg,[data]⟩] := by
  rw [writeReg_eq bus h]
  split <;> rfl

theorem writeReg_chip {reg : ℕ} (h : reg < 8) {s : Tuner} (hk : bus.write s.sent.length = 1)
    (data : Byte) : (writeReg bus reg data s).2.chip = Function.update s.chip reg data := by
  rw [writeReg_eq bus h,if_pos hk]

theorem writeReg_keeps (reg : ℕ) (data : Byte) (s : Tuner) :
    let t := (writeReg bus reg data s).2
    t.regs = s.regs ∧ t.reads = s.reads ∧ t.fields = s.fields := by
  simp only [writeReg,writeRegs]
  split_ifs <;> exact ⟨rfl,rfl,rfl⟩

@[simp] theorem writeReg_regs (reg : ℕ) (data : Byte) (s : Tuner) :
    (writeReg bus reg data s).2.regs = s.regs := (writeReg_keeps bus reg data s).1

@[simp] theorem writeReg_reads (reg : ℕ) (data : Byte) (s : Tuner) :
    (writeReg bus reg data s).2.reads = s.reads := (writeReg_keeps bus reg data s).2.1

@[simp] theorem writeReg_fields (reg : ℕ) (data : Byte) (s : Tuner) :
    (writeReg bus reg data s).2.fields = s.fields := (writeReg_keeps bus reg data s).2.2

theorem waitStat1_eq (f : Field) (n : ℕ) (s : Tuner) :
    ∃ v k, s.reads ≤ k ∧
      waitStat1 bus f n s = {s with regs := Function.update s.regs stat1 v, reads := k} := by
  induction n generalizing s with
  | zero => exact ⟨s.regs stat1,s.reads,le_rfl,by rw [Function.update_eq_self]; rfl⟩
  | succ n ih =>
    have hr : ∃ v, (readReg bus stat1 s).2 =
        {s with regs := Function.update s.regs stat1 v, reads := s.reads + 1} := by
      rw [readReg]
      by_cases hk : bus.read s.reads ≠ 2
      · exact ⟨s.regs stat1,by rw [if_pos hk,Function.update_eq_self]⟩
      · exact ⟨_,by rw [if_neg hk]⟩
    obtain ⟨v,hv⟩ := hr
    rw [waitStat1,hv]
    by_cases hz : f.get (Function.update s.regs stat1 v) = 0
    · refine ⟨v,s.reads + 1,Nat.le_succ _,?_⟩
      exact if_pos hz
    · obtain ⟨w,k,hk,hw⟩ := ih {s with regs := Function.update s.regs stat1 v, reads := s.reads + 1}
      refine ⟨w,k,(Nat.le_succ _).trans hk,?_⟩
      refine (if_neg hz).trans (hw.trans ?_)
      rw [Function.update_idem]

@[simp] theorem waitStat1_sent (f : Field) (n : ℕ) (s : Tuner) :
    (waitStat1 bus f n s).sent = s.sent := by
  obtain ⟨v,k,_,he⟩ := waitStat1_eq bus f n s
  rw [he]

@[simp] theorem waitStat1_chip (f : Field) (n : ℕ) (s : Tuner) :
    (waitStat1 bus f n s).chip = s.chip := by
  obtain ⟨v,k,_,he⟩ := waitStat1_eq bus f n s
  rw [he]

@[simp] theorem waitStat1_fields (f : Field) (n : ℕ) (s : Tuner) :
    (waitStat1 bus f n s).fields = s.fields := by
  obtain ⟨v,k,_,he⟩ := waitStat1_eq bus f n s
  rw [he]

theorem waitStat1_regs (f : Field) (n : ℕ) (s : Tuner) {reg : ℕ} (h : reg ≠ stat1) :
    (waitStat1 bus f n s).regs reg = s.regs reg := by
  obtain ⟨v,k,_,he⟩ := waitStat1_eq bus f n s
  rw [he]
  exact Function.update_of_ne h _ _

theorem waitStat1_reads (f : Field) (n : ℕ) (s : Tuner) :
    s.reads ≤ (waitStat1 bus f n s).reads := by
  obtain ⟨v,k,hk,he⟩ := waitStat1_eq bus f n s
  rw [he]
  exact hk

theorem readReg_eq {reg : ℕ} (hr : reg < stat1) {s : Tuner} (h : bus.read s.reads = 2) :
    (readReg bus reg s).2 =
      {s with regs := Function.update s.regs reg (s.chip reg), reads := s.reads + 1} := by
  rw [readReg,if_pos hr]
  exact congrArg Prod.snd (if_neg (not_not_intro h))

end Stv6110x
end AkbPcr20x
