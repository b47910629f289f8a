import Mathlib.Tactic

/-! Bit fields of a register of `n` bits, read and written in words of `m` bits. A write
does not mask its value: it is confined to its field only if the value fits. -/
namespace AkbPcr20x

structure BitField (n : ℕ) where
  offset : ℕ
  width : ℕ
  fits : offset + width ≤ n

namespace BitField

variable {n m : ℕ} (f g : BitField n)

def ones (m : ℕ) : BitVec m := (1#m <<< f.width) - 1#m

def put (v : BitVec m) (b : BitVec n) : BitVec n :=
  ((b.setWidth m &&& ~~~(f.ones m <<< f.offset)) ||| v <<< f.offset).setWidth n

def get (m : ℕ) (b : BitVec n) : BitVec m := b.setWidth m >>> f.offset &&& f.ones m

def Holds (v : BitVec m) : Prop := v.toNat < 2^f.width

def Apart : Prop := f.offset + f.width ≤ g.offset ∨ g.offset + g.width ≤ f.offset

theorem ones_getLsbD (hm : n < m) (i : ℕ) : (f.ones m).getLsbD i = decide (i < f.width) := by
  have hw := f.fits
  have hlt : 2^f.width < 2^m := Nat.pow_lt_pow_right (by decide) (by omega)
  have hpos : 0 < 2^f.width := Nat.two_pow_pos _
  have h1 : (1#m).toNat = 1 := by
    rw [BitVec.toNat_ofNat,Nat.mod_eq_of_lt (by omega)]
  have hs : (1#m <<< f.width).toNat = 2^f.width := by
    rw [BitVec.toNat_shiftLeft,h1,Nat.shiftLeft_eq,Nat.one_mul,Nat.mod_eq_of_lt hlt]
  have hle : 1#m ≤ 1#m <<< f.width := by
    rw [BitVec.le_def,hs,h1]
    exact hpos
  rw [BitVec.getLsbD,ones,BitVec.toNat_sub_of_le hle,hs,h1,Nat.testBit_two_pow_sub_one]

theorem getLsbD_of_holds {v : BitVec m} (hv : f.Holds v) {i : ℕ} (hi : f.width ≤ i) :
    v.getLsbD i = false := by
  rw [BitVec.getLsbD]
  exact Nat.testBit_lt_two_pow (hv.trans_le (Nat.pow_le_pow_right (by decide) hi))

theorem put_getLsbD (hm : n < m) {v : BitVec m} (hv : f.Holds v) (b : BitVec n) {i : ℕ}
    (hi : i < n) : (f.put v b).getLsbD i =
      if f.offset ≤ i ∧ i < f.offset + f.width then v.getLsbD (i - f.offset) else b.getLsbD i := by
  have him : i < m := hi.trans hm
  simp only [put,BitVec.getLsbD_setWidth,hi,BitVec.getLsbD_or,BitVec.getLsbD_and,
    BitVec.getLsbD_not,BitVec.getLsbD_shiftLeft,him,f.ones_getLsbD hm,decide_true,Bool.true_and]
  by_cases ho : f.offset ≤ i
  · by_cases hw : i < f.offset + f.width
    · simp [ho,hw,show ¬ i < f.offset by omega,show i - f.offset < f.width by omega]
    · have hz := f.getLsbD_of_holds hv (show f.width ≤ i - f.offset by omega)
      simp [hw,hz,show ¬ i - f.offset < f.width by omega]
  · simp [ho,show i < f.offset by omega]

theorem get_getLsbD (hm : n < m) (b : BitVec n) (i : ℕ) :
    (f.get m b).getLsbD i = (decide (i < f.width) && b.getLsbD (f.offset + i)) := by
  have hw := f.fits
  simp only [get,BitVec.getLsbD_and,BitVec.getLsbD_ushiftRight,BitVec.getLsbD_setWidth,
    f.ones_getLsbD hm]
  by_cases hi : i < f.width
  · simp [hi,show f.offset + i < m by omega]
  · simp [hi]

theorem get_put (hm : n < m) {v : BitVec m} (hv : f.Holds v) (b : BitVec n) :
    f.get m (f.put v b) = v := by
  have hw := f.fits
  apply BitVec.eq_of_getLsbD_eq
  intro i _
  rw [f.get_getLsbD hm]
  by_cases hi : i < f.width
  · rw [f.put_getLsbD hm hv b (by omega),if_pos (by omega),Nat.add_sub_cancel_left]
    simp [hi]
  · rw [f.getLsbD_of_holds hv (by omega)]
    simp [hi]

/-- A value that fits does not spill into another field. -/
theorem get_put_of_apart (hm : n < m) (h : f.Apart g) {v : BitVec m} (hv : f.Holds v)
    (b : BitVec n) : g.get m (f.put v b) = g.get m b := by
  have hw := g.fits
  rw [Apart] at h
  apply BitVec.eq_of_getLsbD_eq
  intro i _
  rw [g.get_getLsbD hm,g.get_getLsbD hm]
  by_cases hi : i < g.width
  · rw [f.put_getLsbD hm hv b (by omega),if_neg (by omega)]
  · simp [hi]

end BitField
end AkbPcr20x
