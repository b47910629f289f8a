import Mathlib.Tactic

/-! Fixed-point conversion by halving the unit. Each turn appends one bit to the value and
keeps what the value leaves over; a strict comparison may leave a whole unit over, which
the rounding at the end takes back. -/
namespace AkbPcr20x
namespace Approximation

/-- `value` units and a rest. -/
structure Split where
  value : ℕ
  rest : ℕ
  unit : ℕ

def Split.total (s : Split) : ℕ := s.value * s.unit + s.rest

/-- One more bit; it is set only if the rest is greater than the new unit. -/
def Split.halve (s : Split) : Split :=
  if s.unit / 2 < s.rest then ⟨2 * s.value + 1,s.rest - s.unit / 2,s.unit / 2⟩
  else ⟨2 * s.value,s.rest,s.unit / 2⟩

def Split.refine : ℕ → Split → Split
  | 0, s => s
  | n+1, s => s.halve.refine n

/-- The value rounded by its rest. -/
def Split.rounded (s : Split) : ℕ := if (s.unit - 1) / 2 < s.rest then s.value + 1 else s.value

theorem Split.halve_unit (s : Split) : s.halve.unit = s.unit / 2 := by
  rw [halve]
  split <;> rfl

theorem Split.halve_total {s : Split} (h : 2 ∣ s.unit) : s.halve.total = s.total := by
  obtain ⟨u,hu⟩ := h
  have hd : s.unit / 2 = u := by omega
  rw [halve,hd]
  by_cases hr : u < s.rest
  · rw [if_pos hr]
    simp only [total,hu]
    calc
      (2 * s.value + 1) * u + (s.rest - u) = s.value * (2 * u) + (u + (s.rest - u)) := by ring
      _ = s.value * (2 * u) + s.rest := by rw [Nat.add_sub_cancel' hr.le]
  · rw [if_neg hr]
    simp only [total,hu]
    ring

theorem Split.halve_rest {s : Split} (h : 2 ∣ s.unit) (hr : s.rest ≤ s.unit) :
    s.halve.rest ≤ s.halve.unit := by
  rw [halve]
  split
  · simp only
    omega
  · simp only
    omega

theorem Split.halve_value (s : Split) : s.halve.value + 1 ≤ 2 * (s.value + 1) := by
  rw [halve]
  split <;> simp only <;> omega

/-- If the unit can be halved `n` times, nothing is lost and at most one unit is left. -/
theorem Split.refine_spec (n u : ℕ) {s : Split} (hu : s.unit = 2^n * u) (hr : s.rest ≤ s.unit) :
    (s.refine n).unit = u ∧ (s.refine n).total = s.total ∧ (s.refine n).rest ≤ u := by
  induction n generalizing s with
  | zero =>
    rw [pow_zero,one_mul] at hu
    exact ⟨hu,rfl,hr.trans hu.le⟩
  | succ n ih =>
    have hd : 2 ∣ s.unit := ⟨2^n * u,by rw [hu]; ring⟩
    have hh : s.halve.unit = 2^n * u := by
      rw [s.halve_unit,hu,pow_succ]
      have he : 2^n * 2 * u = 2^n * u * 2 := by ring
      rw [he,Nat.mul_div_cancel _ (by decide)]
    obtain ⟨h₁,h₂,h₃⟩ := ih hh (halve_rest hd hr)
    exact ⟨h₁,h₂.trans (halve_total hd),h₃⟩

/-- Rounding gives the nearest number of units, halves up. -/
theorem Split.rounded_eq {s : Split} (hu : 0 < s.unit) (hr : s.rest ≤ s.unit) :
    s.rounded = (s.total + s.unit / 2) / s.unit := by
  have hd : (s.total + s.unit / 2) / s.unit = s.value + (s.rest + s.unit / 2) / s.unit := by
    rw [total,Nat.add_assoc,Nat.add_comm,Nat.add_mul_div_right _ _ hu,Nat.add_comm]
  rw [hd,rounded]
  by_cases h : (s.unit - 1) / 2 < s.rest
  · have hq : (s.rest + s.unit / 2) / s.unit = 1 := by
      refine Nat.div_eq_of_lt_le ?_ ?_ <;> omega
    rw [if_pos h,hq]
  · have hq : (s.rest + s.unit / 2) / s.unit = 0 := Nat.div_eq_of_lt (by omega)
    rw [if_neg h,hq,Nat.add_zero]

theorem Split.convert (n u x : ℕ) (hu : 0 < u) :
    (refine n ⟨x / (2^n * u),x % (2^n * u),2^n * u⟩).rounded = (x + u / 2) / u := by
  have hp : 0 < 2^n * u := Nat.mul_pos (pow_pos (by decide) n) hu
  have hr : x % (2^n * u) ≤ 2^n * u := (Nat.mod_lt x hp).le
  obtain ⟨h₁,h₂,h₃⟩ := refine_spec n u (s:=⟨x / (2^n * u),x % (2^n * u),2^n * u⟩) rfl hr
  have ht : total ⟨x / (2^n * u),x % (2^n * u),2^n * u⟩ = x := by
    rw [total,Nat.mul_comm]
    exact Nat.div_add_mod x _
  rw [rounded_eq (by rw [h₁]; exact hu) (by rw [h₁]; exact h₃),h₁,h₂,ht]

end Approximation
end AkbPcr20x
