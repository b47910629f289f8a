import Mathlib.Tactic

/-! Machine words and error numbers shared by the driver and the firmware. -/
namespace AkbPcr20x

/-- `BYTE` of the firmware and `u8` of the driver. -/
abbrev Byte := BitVec 8

/-- `WORD` of the firmware and `u16` of the driver. -/
abbrev Word := BitVec 16

/-- `u32` of the driver. -/
abbrev U32 := BitVec 32

def msb (w : Word) : Byte := (w >>> 8).setWidth 8

def lsb (w : Word) : Byte := w.setWidth 8

def be16 (hi lo : Byte) : Word := hi.setWidth 16 <<< 8 ||| lo.setWidth 16

@[simp] theorem be16_msb_lsb (w : Word) : be16 (msb w) (lsb w) = w := by
  ext i hi
  simp only [be16,msb,lsb,BitVec.getElem_or,BitVec.getElem_shiftLeft,BitVec.getElem_setWidth,
    BitVec.getLsbD_setWidth,BitVec.getLsbD_ushiftRight]
  by_cases h : i < 8
  · simp [h,BitVec.getLsbD_eq_getElem hi]
  · have he : 8 + (i-8) = i := by omega
    simp [h,he,show i - 8 < 8 by omega,BitVec.getLsbD_eq_getElem hi]

theorem msb_be16 (hi lo : Byte) : msb (be16 hi lo) = hi := by
  ext i h
  simp only [be16,msb,BitVec.getElem_setWidth,BitVec.getLsbD_ushiftRight,BitVec.getLsbD_or,
    BitVec.getLsbD_shiftLeft,BitVec.getLsbD_setWidth]
  simp [show 8+i < 16 by omega,show i < 16 by omega,BitVec.getLsbD_eq_getElem h]

theorem lsb_be16 (hi lo : Byte) : lsb (be16 hi lo) = lo := by
  ext i h
  simp only [be16,lsb,BitVec.getElem_setWidth,BitVec.getLsbD_or,BitVec.getLsbD_shiftLeft,
    BitVec.getLsbD_setWidth]
  simp [h,show i < 16 by omega]

theorem and_low15 (w : Word) : (w &&& 0x7fff).toNat = w.toNat % 2^15 := by
  have hm : (0x7fff : Word).toNat = 2^15-1 := rfl
  rw [BitVec.toNat_and,hm,Nat.and_two_pow_sub_one_eq_mod]

theorem and_top_ne_zero (w : Word) : w &&& 0x8000 ≠ 0 ↔ 2^15 ≤ w.toNat := by
  have hm : (0x8000 : Word) = BitVec.twoPow 16 15 := rfl
  have hw := w.isLt
  rw [hm,BitVec.and_twoPow,BitVec.getLsbD,Nat.testBit_eq_decide_div_mod_eq]
  by_cases h : w.toNat / 2^15 % 2 = 1
  · simp only [h,decide_true,if_true]
    exact ⟨fun _ => by omega,fun _ => by decide⟩
  · simp only [h,decide_false,Bool.false_eq_true,if_false]
    exact ⟨fun hn => absurd rfl hn,fun _ => by omega⟩

namespace Errno

def eio : ℤ := 5
def enomem : ℤ := 12
def ebusy : ℤ := 16
def enodev : ℤ := 19
def einval : ℤ := 22
def eoverflow : ℤ := 75
def eopnotsupp : ℤ := 95
def etimedout : ℤ := 110
def eremoteio : ℤ := 121
def erestartsys : ℤ := 512

end Errno
end AkbPcr20x
