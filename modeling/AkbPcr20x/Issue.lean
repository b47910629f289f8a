import Mathlib.Tactic

/-! Items issued in order until one fails. The outcomes are numbered, so a caller that has
issued `k` items before goes on with outcome `k`. -/
namespace AkbPcr20x
namespace Issue

variable {α : Type} (ok : ℕ → Bool)

/-- The items issued, and whether all of them succeeded. -/
def issue : ℕ → List α → List α × Bool
  | _, [] => ([],true)
  | k, x::xs =>
    if ok k then
      let r := issue (k+1) xs
      (x::r.1,r.2)
    else ([x],false)

theorem issue_cons_ok {k : ℕ} (h : ok k = true) (x : α) (xs : List α) :
    issue ok k (x::xs) = (x::(issue ok (k+1) xs).1,(issue ok (k+1) xs).2) := by
  rw [issue,if_pos h]

theorem issue_cons_failed {k : ℕ} (h : ¬ ok k = true) (x : α) (xs : List α) :
    issue ok k (x::xs) = ([x],false) := by
  rw [issue,if_neg h]

theorem issue_all {k : ℕ} {xs : List α} (h : (issue ok k xs).2 = true) :
    (issue ok k xs).1 = xs := by
  induction xs generalizing k with
  | nil => rfl
  | cons x xs ih =>
    by_cases hk : ok k = true
    · rw [issue_cons_ok ok hk] at h ⊢
      rw [ih h]
    · rw [issue_cons_failed ok hk] at h
      cases h

theorem issue_append (k : ℕ) (xs ys : List α) :
    issue ok k (xs ++ ys) =
      if (issue ok k xs).2 then
        (xs ++ (issue ok (k+xs.length) ys).1,(issue ok (k+xs.length) ys).2)
      else ((issue ok k xs).1,false) := by
  induction xs generalizing k with
  | nil => rfl
  | cons x xs ih =>
    by_cases hk : ok k = true
    · have he : k + 1 + xs.length = k + (x::xs).length := by
        rw [List.length_cons]
        omega
      rw [List.cons_append,issue_cons_ok ok hk,issue_cons_ok ok hk,ih,he]
      split <;> rfl
    · rw [List.cons_append,issue_cons_failed ok hk,issue_cons_failed ok hk]
      rfl

theorem issue_ok_iff (k : ℕ) (xs : List α) :
    (issue ok k xs).2 = true ↔ ∀ i < xs.length, ok (k+i) = true := by
  induction xs generalizing k with
  | nil => exact ⟨fun _ i hi => absurd hi (Nat.not_lt_zero i),fun _ => rfl⟩
  | cons x xs ih =>
    by_cases hk : ok k = true
    · rw [issue_cons_ok ok hk,ih]
      constructor
      · intro h i hi
        rcases i with _ | i
        · exact hk
        · have hh := h i (by rw [List.length_cons] at hi; omega)
          rwa [Nat.add_assoc,Nat.add_comm 1 i] at hh
      · intro h i hi
        have hh := h (i+1) (by rw [List.length_cons]; omega)
        rwa [Nat.add_comm i 1,← Nat.add_assoc] at hh
    · rw [issue_cons_failed ok hk]
      constructor
      · intro h
        cases h
      · intro h
        exact absurd (h 0 (by simp)) hk

/-- What is issued is cut behind the first failure. -/
theorem issue_cut (k : ℕ) (xs : List α) :
    ∃ n ≤ xs.length, (issue ok k xs).1 = xs.take n ∧ (∀ i, i + 1 < n → ok (k+i) = true) ∧
      (n < xs.length → ∃ m, n = m + 1 ∧ ok (k+m) = false) := by
  induction xs generalizing k with
  | nil => exact ⟨0,le_rfl,rfl,by omega,fun h => absurd h (Nat.lt_irrefl 0)⟩
  | cons x xs ih =>
    by_cases hk : ok k = true
    · obtain ⟨n,hn,ht,ha,hl⟩ := ih (k+1)
      refine ⟨n+1,Nat.succ_le_succ hn,?_,?_,?_⟩
      · rw [issue_cons_ok ok hk,ht]
        rfl
      · intro i hi
        rcases i with _ | i
        · exact hk
        · have hh := ha i (by omega)
          rwa [Nat.add_assoc,Nat.add_comm 1 i] at hh
      · intro h
        obtain ⟨m,rfl,hm⟩ := hl (Nat.lt_of_succ_lt_succ h)
        exact ⟨m+1,rfl,by rwa [Nat.add_assoc,Nat.add_comm 1 m] at hm⟩
    · refine ⟨1,by simp,?_,by omega,fun _ => ⟨0,rfl,eq_false_of_ne_true hk⟩⟩
      rw [issue_cons_failed ok hk]
      rfl

end Issue
end AkbPcr20x
