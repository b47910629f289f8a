import Mathlib.Data.Set.Card

/-! Pointers as partial functions, and the number of places that point at a target. -/
namespace AkbPcr20x
namespace Pointers

variable {α β : Type}

/-- The number of places that point at `b`; only meaningful where they are finitely many. -/
noncomputable def refs (f : α → Option β) (b : β) : ℕ := {a | f a = some b}.ncard

/-- Only finitely many places hold a pointer. -/
def Sparse (f : α → Option β) : Prop := {a | f a ≠ none}.Finite

theorem sparse_none : Sparse fun _ : α => (none : Option β) := by
  simp [Sparse]

theorem Sparse.finite {f : α → Option β} (h : Sparse f) (b : β) : {a | f a = some b}.Finite :=
  h.subset fun a (ha : f a = some b) => show f a ≠ none by simp [ha]

theorem refs_eq_zero {f : α → Option β} {b : β} (h : ∀ a, f a ≠ some b) : refs f b = 0 := by
  have he : {a | f a = some b} = ∅ := Set.eq_empty_of_forall_notMem h
  rw [refs,he,Set.ncard_empty]

variable [DecidableEq α]

theorem Sparse.update {f : α → Option β} (h : Sparse f) (a : α) (p : Option β) :
    Sparse (Function.update f a p) := by
  refine (h.insert a).subset fun x (hx : Function.update f a p x ≠ none) => ?_
  by_cases hxa : x = a
  · exact Or.inl hxa
  · rw [Function.update_of_ne hxa] at hx
    exact Or.inr hx

/-- A pointer counts for its own target on top of all the others. -/
theorem refs_update [DecidableEq β] {f : α → Option β} (h : Sparse f) (a : α) (p : Option β)
    (b : β) : refs (Function.update f a p) b =
      refs (Function.update f a none) b + if p = some b then 1 else 0 := by
  have hout : a ∉ {x | Function.update f a none x = some b} := by simp
  have hfin := (h.update a none).finite b
  split_ifs with hp
  · have hset : {x | Function.update f a p x = some b} =
        insert a {x | Function.update f a none x = some b} := by
      ext x
      by_cases hx : x = a <;> simp [hx,hp]
    rw [refs,hset,Set.ncard_insert_of_notMem hout hfin,refs]
  · have hset : {x | Function.update f a p x = some b} =
        {x | Function.update f a none x = some b} := by
      ext x
      by_cases hx : x = a <;> simp [hx,hp]
    rw [refs,hset,Nat.add_zero,refs]

theorem refs_split [DecidableEq β] {f : α → Option β} (h : Sparse f) (a : α) (b : β) :
    refs f b = refs (Function.update f a none) b + if f a = some b then 1 else 0 := by
  have hu := refs_update h a (f a) b
  rwa [Function.update_eq_self] at hu

end Pointers
end AkbPcr20x
