import Mathlib.Tactic

/-! Sequential transducers. A transducer reads a trace letter by letter and puts out
a list of events for each letter; `run_append` is the rule by which the events of
consecutive parts of a trace compose. -/
namespace AkbPcr20x
namespace Transducer

variable {P A E : Type} {δ : P → A → P × List E}

/-- The phase behind a trace, and all that was put out. -/
def run (δ : P → A → P × List E) : P → List A → P × List E
  | p, [] => (p,[])
  | p, a::t => ((run δ (δ p a).1 t).1,(δ p a).2 ++ (run δ (δ p a).1 t).2)

theorem run_append {p p' p'' : P} {t t' : List A} {es es' : List E} (h : run δ p t = (p',es))
    (h' : run δ p' t' = (p'',es')) : run δ p (t++t') = (p'',es++es') := by
  induction t generalizing p es with
  | nil =>
    simp only [run,Prod.mk.injEq] at h
    obtain ⟨rfl,rfl⟩ := h
    exact h'
  | cons a t ih =>
    simp only [run,Prod.mk.injEq] at h
    obtain ⟨hp,rfl⟩ := h
    have hh := ih (Prod.ext hp rfl)
    simp only [List.cons_append,run,hh,List.append_assoc]

theorem run_singleton (p : P) (a : A) : run δ p [a] = δ p a := by
  simp [run]

variable {Q F : Type} {ε : Q → A → Q × List F}

def both (δ : P → A → P × List E) (ε : Q → A → Q × List F) (pq : P × Q) (a : A) :
    (P × Q) × List (E ⊕ F) :=
  (((δ pq.1 a).1,(ε pq.2 a).1),(δ pq.1 a).2.map Sum.inl ++ (ε pq.2 a).2.map Sum.inr)

/-- Where one of them is silent, the output is that of the other one. -/
theorem run_both_left {p p' : P} {q q' : Q} {t : List A} {es : List E} (h : run δ p t = (p',es))
    (h' : run ε q t = (q',[])) : run (both δ ε) (p,q) t = ((p',q'),es.map Sum.inl) := by
  induction t generalizing p q es with
  | nil =>
    simp only [run,Prod.mk.injEq] at h h'
    obtain ⟨⟨rfl,rfl⟩,rfl⟩ := And.intro h h'.1
    rfl
  | cons a t ih =>
    simp only [run,Prod.mk.injEq,List.append_eq_nil_iff] at h h'
    obtain ⟨hp,rfl⟩ := h
    rw [run,both,ih (Prod.ext hp rfl) (Prod.ext h'.1 h'.2.2),h'.2.1,List.map_append,List.map_nil,
      List.append_nil]

theorem run_both_right {p p' : P} {q q' : Q} {t : List A} {es : List F} (h : run δ p t = (p',[]))
    (h' : run ε q t = (q',es)) : run (both δ ε) (p,q) t = ((p',q'),es.map Sum.inr) := by
  induction t generalizing p q es with
  | nil =>
    simp only [run,Prod.mk.injEq] at h h'
    obtain ⟨⟨rfl,rfl⟩,rfl⟩ := And.intro h'  h.1
    rfl
  | cons a t ih =>
    simp only [run,Prod.mk.injEq,List.append_eq_nil_iff] at h h'
    obtain ⟨hq,rfl⟩ := h'
    rw [run,both,ih (Prod.ext h.1 h.2.2) (Prod.ext hq rfl),h.2.1,List.map_append,List.map_nil,
      List.nil_append]

/-- From `t` on to `t'` the phase goes from `p` to `p'` with the events `es`. -/
def Grows (δ : P → A → P × List E) (t t' : List A) (p p' : P) (es : List E) : Prop :=
  ∃ as, t' = t ++ as ∧ run δ p as = (p',es)

variable {t t' t'' : List A} {p p' p'' : P} {es es' : List E}

theorem Grows.refl (δ : P → A → P × List E) (t : List A) (p : P) : Grows δ t t p p [] :=
  ⟨[],(List.append_nil t).symm,rfl⟩

theorem Grows.emit (δ : P → A → P × List E) (t : List A) (p : P) (a : A) :
    Grows δ t (t++[a]) p (δ p a).1 (δ p a).2 :=
  ⟨[a],rfl,run_singleton p a⟩

theorem Grows.trans (h : Grows δ t t' p p' es) (h' : Grows δ t' t'' p' p'' es') :
    Grows δ t t'' p p'' (es++es') := by
  obtain ⟨as,rfl,hr⟩ := h
  obtain ⟨as',rfl,hr'⟩ := h'
  exact ⟨as++as',List.append_assoc t as as',run_append hr hr'⟩

theorem Grows.events_eq (h : Grows δ t t' p p' es) : (run δ p (t'.drop t.length)).2 = es := by
  obtain ⟨as,rfl,hr⟩ := h
  rw [List.drop_left,hr]

end Transducer
end AkbPcr20x
