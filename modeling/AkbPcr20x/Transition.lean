import Mathlib.Tactic

/-! Labelled transition systems with partial deterministic steps. A label
carries every choice of the environment, so a run is the list of its labels.
`Exec.invariant_along` is the run rule used when only steps that meet a
condition keep the invariant. -/
namespace AkbPcr20x
namespace Transition

variable {S A : Type} {step : S → A → Option S}

inductive Exec (step : S → A → Option S) : S → List A → S → Prop
  | refl (s) : Exec step s [] s
  | succ {s t u a as} : step s a = some t → Exec step t as u → Exec step s (a::as) u

def run (step : S → A → Option S) : S → List A → Option S
  | s, [] => some s
  | s, a::as => (step s a).bind fun t => run step t as

theorem exec_of_run {s u : S} {as : List A} (h : run step s as = some u) : Exec step s as u := by
  induction as generalizing s with
  | nil =>
    simp only [run,Option.some.injEq] at h
    subst u
    exact Exec.refl s
  | cons a as ih =>
    obtain ⟨t,ht,hr⟩ := Option.bind_eq_some_iff.mp h
    exact Exec.succ ht (ih hr)

namespace Exec

theorem append {s t u : S} {as bs : List A} (h : Exec step s as t) (h' : Exec step t bs u) :
    Exec step s (as ++ bs) u := by
  induction h with
  | refl => exact h'
  | succ ht _ ih => exact succ ht (ih h')

theorem invariant {I : S → Prop} (hI : ∀ s a t, I s → step s a = some t → I t)
    {s u : S} {as : List A} (h : Exec step s as u) (hs : I s) : I u := by
  induction h with
  | refl => exact hs
  | succ ht _ ih => exact ih (hI _ _ _ hs ht)

end Exec

/-- Every step of the run meets the condition in the state it is taken from. -/
def Along (C : S → A → Prop) (step : S → A → Option S) : S → List A → Prop
  | _, [] => True
  | s, a::as => C s a ∧ ∀ t, step s a = some t → Along C step t as

/-- The predicate holds in every state the run visits, the first and the last included. -/
def Always (P : S → Prop) (step : S → A → Option S) : S → List A → Prop
  | s, [] => P s
  | s, a::as => P s ∧ ∀ t, step s a = some t → Always P step t as

variable {C Q : S → A → Prop} {P I : S → Prop}

theorem Along.cons {s t : S} {a : A} {as : List A} (hc : C s a) (ht : step s a = some t)
    (h : Along C step t as) : Along C step s (a::as) :=
  ⟨hc,fun u hu => by rwa [← Option.some.inj (ht.symm.trans hu)]⟩

instance decidableAlong [∀ s a, Decidable (C s a)] :
    ∀ (s : S) (as : List A), Decidable (Along C step s as)
  | _, [] => .isTrue trivial
  | s, a::as =>
    match h : step s a with
    | none => decidable_of_iff (C s a) ⟨fun hc => ⟨hc,fun t ht => by simp [h] at ht⟩,And.left⟩
    | some t =>
      have := decidableAlong t as
      decidable_of_iff (C s a ∧ Along C step t as)
        ⟨fun hc => .cons hc.1 h hc.2,fun hc => ⟨hc.1,hc.2 t h⟩⟩

/-- The run rule: steps that meet the condition keep the invariant. -/
theorem Exec.invariant_along (hI : ∀ s a t, I s → C s a → step s a = some t → I t)
    {s u : S} {as : List A} (h : Exec step s as u) (hs : I s) (hc : Along C step s as) : I u := by
  induction h with
  | refl => exact hs
  | succ ht _ ih => exact ih (hI _ _ _ hs hc.1 ht) (hc.2 _ ht)

theorem Always.head {s : S} {as : List A} (h : Always P step s as) : P s := by
  cases as with
  | nil => exact h
  | cons a as => exact h.1

theorem always_of_along (hI : ∀ s a t, I s → C s a → step s a = some t → I t)
    (hP : ∀ s, I s → P s) {s : S} {as : List A} (hs : I s) (hc : Along C step s as) :
    Always P step s as := by
  induction as generalizing s with
  | nil => exact hP s hs
  | cons a as ih => exact ⟨hP s hs,fun t ht => ih (hI _ _ _ hs hc.1 ht) (hc.2 t ht)⟩

theorem along_of_along (hI : ∀ s a t, I s → C s a → step s a = some t → I t)
    (hQ : ∀ s a, I s → C s a → Q s a) {s : S} {as : List A} (hs : I s)
    (hc : Along C step s as) : Along Q step s as := by
  induction as generalizing s with
  | nil => trivial
  | cons a as ih => exact ⟨hQ s a hs hc.1,fun t ht => ih (hI _ _ _ hs hc.1 ht) (hc.2 t ht)⟩

/-- Conversely, if a step that breaks the condition breaks `Q` or leads out of `P`, then
a run inside `P` whose steps keep `Q` only takes steps that meet the condition. -/
theorem along_of_always_along
    (hC : ∀ s a, I s → ¬ C s a → ¬ Q s a ∨ ∃ t, step s a = some t ∧ ¬ P t)
    (hI : ∀ s a t, I s → C s a → step s a = some t → I t) {s : S} {as : List A} (hs : I s)
    (h : Always P step s as) (hq : Along Q step s as) : Along C step s as := by
  induction as generalizing s with
  | nil => trivial
  | cons a as ih =>
    have hca : C s a := by
      by_contra hn
      rcases hC s a hs hn with hnq | ⟨t,ht,hp⟩
      · exact hnq hq.1
      · exact hp (h.2 t ht).head
    exact ⟨hca,fun t ht => ih (hI _ _ _ hs hca ht) (h.2 t ht) (hq.2 t ht)⟩

theorem along_true (s : S) (as : List A) : Along (fun _ _ => True) step s as := by
  induction as generalizing s with
  | nil => trivial
  | cons a as ih => exact ⟨trivial,fun t _ => ih t⟩

/-- The case of a condition that only the states visited decide. -/
theorem along_of_always (hC : ∀ s a, I s → ¬ C s a → ∃ t, step s a = some t ∧ ¬ P t)
    (hI : ∀ s a t, I s → C s a → step s a = some t → I t) {s : S} {as : List A} (hs : I s)
    (h : Always P step s as) : Along C step s as :=
  along_of_always_along (fun s a his hn => Or.inr (hC s a his hn)) hI hs h (along_true s as)

end Transition
end AkbPcr20x
