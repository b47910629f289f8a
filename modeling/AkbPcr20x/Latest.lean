import Mathlib.Tactic

/-! The value that was asked for last. In a state made of independent settings each request
replaces some of them, and behind a run every setting is the latest one of its own. -/
namespace AkbPcr20x

variable {α β : Type}

/-- The last of the values that the requests ask for, or else the one before them. -/
def latest (f : α → Option β) (as : List α) (b : β) : β := (as.filterMap f).getLastD b

@[simp] theorem latest_nil (f : α → Option β) (b : β) : latest f [] b = b := rfl

theorem latest_cons (f : α → Option β) (a : α) (as : List α) (b : β) :
    latest f (a::as) b = latest f as ((f a).getD b) := by
  rw [latest,latest]
  cases hf : f a with
  | none => rw [List.filterMap_cons_none hf,Option.getD_none]
  | some v => rw [List.filterMap_cons_some hf,List.getLastD_cons,Option.getD_some]

/-- The same requests a second time change nothing. -/
theorem latest_latest (f : α → Option β) (as : List α) (b : β) :
    latest f as (latest f as b) = latest f as b := by
  rw [latest,latest]
  cases as.filterMap f with
  | nil => rfl
  | cons v vs => rw [List.getLastD_cons,List.getLastD_cons]

theorem latest_map {γ : Type} (f : α → Option β) (g : β → γ) (as : List α) (b : β) :
    latest (fun a => (f a).map g) as (g b) = g (latest f as b) := by
  induction as generalizing b with
  | nil => rfl
  | cons a as ih =>
    rw [latest_cons,latest_cons,← ih]
    cases f a <;> rfl

/-- What holds of all that is asked for, and of the value before, holds of the latest one. -/
theorem latest_of_forall {f : α → Option β} {p : β → Prop} {as : List α} {b : β}
    (h : ∀ a ∈ as, ∀ v, f a = some v → p v) (hb : p b) : p (latest f as b) := by
  induction as generalizing b with
  | nil => exact hb
  | cons a as ih =>
    rw [List.forall_mem_cons] at h
    rw [latest_cons]
    refine ih h.2 ?_
    cases hf : f a with
    | none => exact hb
    | some v => exact h.1 v hf

theorem latest_none {f : α → Option β} {as : List α} (h : ∀ a ∈ as, f a = none) (b : β) :
    latest f as b = b := by
  induction as generalizing b with
  | nil => rfl
  | cons a as ih =>
    rw [List.forall_mem_cons] at h
    rw [latest_cons,h.1,Option.getD_none,ih h.2]

theorem latest_some {f : α → Option β} {as : List α} (h : ∃ a ∈ as, (f a).isSome) (b b' : β) :
    latest f as b = latest f as b' := by
  obtain ⟨a,ha,hf⟩ := h
  obtain ⟨v,hv⟩ := Option.isSome_iff_exists.mp hf
  have hm : v ∈ as.filterMap f := List.mem_filterMap.mpr ⟨a,ha,hv⟩
  rw [latest,latest]
  cases hl : as.filterMap f with
  | nil =>
    rw [hl] at hm
    cases hm
  | cons w ws => rw [List.getLastD_cons,List.getLastD_cons]

end AkbPcr20x
