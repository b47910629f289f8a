import AkbPcr20x.EndToEnd
import AkbPcr20x.TsBus

/-! The tables of both frontends on the wire. The driver hears nothing of a write that its
demodulator did not take, and goes on to the saved operation in any case; the firmware counts
it, and the demodulators hold exactly the rest. -/
namespace AkbPcr20x
namespace TsBusWire

open MainLoop I2cXfer I2cEngine I2cBus I2cFrames Link RegisterRead EndToEnd Frontend TsBus

theorem pair_length (reg val : Byte) : [reg,val].length < 2^16 := by
  rw [List.length_cons,List.length_singleton]
  decide

def message (addr reg val : Byte) : I2cMsg :=
  ⟨addr.setWidth 16,0,[reg,val],pair_length reg val⟩

def demodAddr : Fe → Byte
  | .s => 0x11
  | .t => 0x10

variable (pins : Sfr → Byte)

/-- `i2c_transfer` down to the bus. -/
def env : Frontend.Env (Xfer (Host Ctl)) where
  i2cTransfer addr reg val x := i2cXfer (host (board pins)) true [message addr reg val] x
  demodS := demodAddr .s
  demodT := demodAddr .t

/-- The demodulators take over frames of a register and its value. -/
def takeFrame (m : Regs) : List Byte → Regs
  | [a,reg,val] =>
    if a = writeAddress (demodAddr .s) then setReg m .s reg val
    else if a = writeAddress (demodAddr .t) then setReg m .t reg val else m
  | _ => m

/-- The registers behind a table some writes of which arrived. -/
def held : List RegWrite → List (Bool × Bool) → Regs → Regs
  | x::xs, k::ks, m => held xs ks (if k.1 then setReg m x.demod x.reg x.val else m)
  | _, _, m => m

/-- The USB works, and the registers are what the demodulators took over since `w`. -/
def Holds (w : Ctl) (m : Regs) (x : Xfer (Host Ctl)) (regs : Regs) : Prop :=
  Ready x.usb ∧ ∃ fs, Takes w x.usb.fw.core.world fs ∧ regs = fs.foldl takeFrame m

/-- How a table arrived: which writes the demodulators took, and the registers from `m` on. -/
structure OnWire (fe : Fe) (ks : List (Bool × Bool)) (m : Regs) (c c' : Core Ctl) : Prop where
  all : ks.length = (table fe).length
  errcnt : c'.i2cWriteErrcnt = c.i2cWriteErrcnt + BitVec.ofNat 16 (lostWrites ks)
  regs : ∀ e ∈ (table fe).zip ks,
    ((frames (events c.world c'.world)).foldl takeFrame m) e.1.demod e.1.reg =
      if e.2.1 then e.1.val else m e.1.demod e.1.reg
  others : ∀ d r, (∀ x ∈ table fe, ¬ (x.demod = d ∧ x.reg = r)) →
    ((frames (events c.world c'.world)).foldl takeFrame m) d r = m d r

/-- A write counter that did not move means that the whole table arrived. -/
theorem OnWire.whole {fe : Fe} {ks : List (Bool × Bool)} {m : Regs} {c c' : Core Ctl}
    (h : OnWire fe ks m c c') (he : c'.i2cWriteErrcnt = c.i2cWriteErrcnt) :
    ∀ x ∈ table fe, ((frames (events c.world c'.world)).foldl takeFrame m) x.demod x.reg = x.val := by
  have hb : (table fe).length ≤ 8 := by cases fe <;> decide
  have hk : ks.length < 2^16 := by rw [h.all]; omega
  have h0 := countP_eq_zero_of_word hk (h.errcnt.symm.trans he)
  rw [List.countP_eq_zero] at h0
  intro x hx
  obtain ⟨n,hn,rfl⟩ := List.getElem_of_mem hx
  have hn' : n < ks.length := h.all ▸ hn
  have hz : ((table fe)[n],ks[n]) ∈ (table fe).zip ks := by
    rw [← List.getElem_zip (h:=by rw [List.length_zip]; omega)]
    exact List.getElem_mem _
  have hr := h.regs _ hz
  have ht := h0 ks[n] (List.getElem_mem hn')
  simp only [Bool.not_eq_true,Bool.not_eq_false'] at ht
  rwa [ht,if_pos rfl] at hr

end TsBusWire
end AkbPcr20x
