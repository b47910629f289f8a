import Mathlib.Tactic

/-! A lock with one owner that counts the acquisitions of its owner. A held lock has
at least one acquisition by construction. -/
namespace AkbPcr20x
namespace CountedLock

/-- `held a n` is a lock that `a` has acquired `n+1` times more than released. -/
inductive Lock (α : Type)
  | free
  | held (a : α) (n : ℕ)

variable {α : Type} [DecidableEq α]

/-- Only the owner may acquire a held lock again. -/
def acquire (a : α) : Lock α → Bool × Lock α
  | .free => (true,.held a 0)
  | .held b n => if b = a then (true,.held b (n+1)) else (false,.held b n)

/-- A release by anyone else has no effect. -/
def release (a : α) : Lock α → Lock α
  | .free => .free
  | .held b 0 => if b = a then .free else .held b 0
  | .held b (n+1) => if b = a then .held b n else .held b (n+1)

/-- The acquisitions of `a` that are not yet released. -/
def count (a : α) : Lock α → ℕ
  | .free => 0
  | .held b n => if b = a then n+1 else 0

@[simp] theorem count_free (a : α) : count a (.free : Lock α) = 0 := rfl

@[simp] theorem count_held_self (a : α) (n : ℕ) : count a (.held a n) = n+1 := if_pos rfl

theorem count_held_of_ne {a b : α} (h : b ≠ a) (n : ℕ) : count a (.held b n) = 0 := if_neg h

theorem free_of_count {l : Lock α} (h : ∀ a, count a l = 0) : l = .free := by
  cases l with
  | free => rfl
  | held b n => simpa using h b

theorem count_acquire {l : Lock α} {a : α} (h : (acquire a l).1 = true) (b : α) :
    count b (acquire a l).2 = if b = a then count b l + 1 else count b l := by
  cases l with
  | free => simp [acquire,count,eq_comm]
  | held c n =>
    by_cases hc : c = a
    · subst c
      by_cases hb : b = a
      · subst b
        simp [acquire]
      · simp [acquire,hb,count_held_of_ne (Ne.symm hb)]
    · simp [acquire,hc] at h

theorem acquire_refused {l : Lock α} {a : α} (h : (acquire a l).1 = false) :
    (acquire a l).2 = l ∧ ∃ b ≠ a, count b l ≠ 0 := by
  cases l with
  | free => cases h
  | held b n =>
    by_cases hb : b = a
    · simp [acquire,hb] at h
    · exact ⟨by simp [acquire,hb],b,hb,by simp⟩

theorem count_release (l : Lock α) (a b : α) :
    count b (release a l) = if b = a then count b l - 1 else count b l := by
  cases l with
  | free => simp [release]
  | held c n =>
    by_cases hc : c = a
    · subst c
      by_cases hb : b = a
      · subst b
        cases n <;> simp [release]
      · cases n <;> simp [release,hb,count_held_of_ne (Ne.symm hb)]
    · by_cases hb : b = a
      · subst b
        cases n <;> simp [release,hc,count_held_of_ne hc]
      · cases n <;> simp [release,hc,hb]

end CountedLock
end AkbPcr20x
