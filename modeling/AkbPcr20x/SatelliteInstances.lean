import AkbPcr20x.Basic
import AkbPcr20x.Transition

/-! The tuner state of the ISDB-S tuner, from its probe to its free. Clients, frontends and
allocations are numbers. The remove of a client finds the frontend in the state, and the state to
free in the frontend. -/
namespace AkbPcr20x
namespace SatelliteInstances

open Transition

/-- The `frontend` field of the allocations so far and how often each of them was freed,
`fe->tuner_priv` and the tuner operations of the frontends, and the client data. A fault is an
access to freed memory. -/
structure Sys where
  next : ℕ
  frontend : ℕ → ℕ
  frees : ℕ → ℕ
  tunerPriv : ℕ → Option ℕ
  installed : ℕ → Bool
  clientdata : ℕ → Option ℕ
  fault : Bool

def Sys.begin : Sys := ⟨0,fun _ => 0,fun _ => 0,fun _ => none,fun _ => false,fun _ => none,false⟩

def kfree (i : Option ℕ) (s : Sys) : Sys :=
  match i with
  | none => s
  | some i => {s with frees := Function.update s.frees i (s.frees i + 1)}

def release (fe : ℕ) (s : Sys) : Sys :=
  kfree (s.tunerPriv fe) {s with tunerPriv := Function.update s.tunerPriv fe none}

def setFrontendOpts (i : ℕ) (s : Sys) : Sys :=
  {s with tunerPriv := Function.update s.tunerPriv (s.frontend i) (some i),
          installed := Function.update s.installed (s.frontend i) true}

def probe (client fe : ℕ) (kzalloc : Bool) (s : Sys) : ℤ × Sys :=
  if kzalloc then
    let i := s.next
    let s := {s with next := i+1, frontend := Function.update s.frontend i fe}
    let s := setFrontendOpts i s
    (0,{s with clientdata := Function.update s.clientdata client (some i)})
  else (-Errno.enomem,s)

def remove (client i : ℕ) (s : Sys) : Sys :=
  let s := {s with fault := s.fault || s.frees i != 0}
  let s := release (s.frontend i) s
  {s with clientdata := Function.update s.clientdata client none}

inductive Action
  | probe (client fe : ℕ) (kzalloc : Bool)
  | release (fe : ℕ)
  | remove (client : ℕ)

/-- The kernel probes a client that is not bound and removes one that is; a release needs the
operations. -/
def step (s : Sys) : Action → Option Sys
  | .probe c fe kzalloc =>
    if s.clientdata c = none then some (probe c fe kzalloc s).2 else none
  | .release fe => if s.installed fe then some (release fe s) else none
  | .remove c => (s.clientdata c).map fun i => remove c i s

inductive Step (s : Sys) : Action → Sys → Prop
  | probe {c fe kzalloc} (hc : s.clientdata c = none) :
      Step s (.probe c fe kzalloc) (probe c fe kzalloc s).2
  | release {fe} (hi : s.installed fe = true) : Step s (.release fe) (release fe s)
  | remove {c i} (hc : s.clientdata c = some i) : Step s (.remove c) (remove c i s)

theorem step_cases {s s' : Sys} {a : Action} (h : step s a = some s') : Step s a s' := by
  cases a with
  | probe c fe kzalloc =>
    simp only [step,Option.ite_none_right_eq_some,Option.some.injEq] at h
    exact h.2 ▸ .probe h.1
  | release fe =>
    simp only [step,Option.ite_none_right_eq_some,Option.some.injEq] at h
    exact h.2 ▸ .release h.1
  | remove c =>
    obtain ⟨i,hi,rfl⟩ := Option.map_eq_some_iff.mp h
    exact .remove hi

/-- No access to freed memory; the state of every client is there and is the one its remove
frees; every other allocation was freed exactly once. -/
structure Clean (s : Sys) : Prop where
  fault : s.fault = false
  own : ∀ c i, s.clientdata c = some i → s.frees i = 0 ∧ s.tunerPriv (s.frontend i) = some i
  freed : ∀ i < s.next, (∀ c, s.clientdata c ≠ some i) → s.frees i = 1

/-- A probe finds its frontend without a tuner, and so does a release. -/
def Kept (s : Sys) : Action → Prop
  | .probe c fe kzalloc => s.clientdata c = none → kzalloc = true → s.tunerPriv fe = none
  | .release fe => s.installed fe = true → s.tunerPriv fe = none
  | .remove _ => True

structure Inv (s : Sys) : Prop where
  clean : Clean s
  held : ∀ fe i, s.tunerPriv fe = some i → s.frontend i = fe ∧ ∃ c, s.clientdata c = some i
  fresh : ∀ c i, s.clientdata c = some i → i < s.next
  unfreed : ∀ i, s.next ≤ i → s.frees i = 0
  single : ∀ c c' i, s.clientdata c = some i → s.clientdata c' = some i → c = c'

theorem inv_begin : Inv Sys.begin where
  clean := ⟨rfl,fun _ _ h => (Option.some_ne_none _ h.symm).elim,fun _ h => absurd h (Nat.not_lt_zero _)⟩
  held _ _ h := (Option.some_ne_none _ h.symm).elim
  fresh _ _ h := (Option.some_ne_none _ h.symm).elim
  unfreed _ _ := rfl
  single _ _ _ h := (Option.some_ne_none _ h.symm).elim

theorem release_none {s : Sys} {fe : ℕ} (h : s.tunerPriv fe = none) : release fe s = s := by
  have hu : Function.update s.tunerPriv fe none = s.tunerPriv := by
    rw [Function.update_eq_self_iff,h]
  rw [release,h,hu,kfree]

theorem update_cases {f : ℕ → Option ℕ} {a b i : ℕ} {v : Option ℕ}
    (h : Function.update f a v b = some i) : (b = a ∧ v = some i) ∨ (b ≠ a ∧ f b = some i) := by
  by_cases he : b = a
  · subst b
    rw [Function.update_self] at h
    exact Or.inl ⟨rfl,h⟩
  · rw [Function.update_of_ne he] at h
    exact Or.inr ⟨he,h⟩

theorem inv_probe {s : Sys} (hs : Inv s) {c fe : ℕ} (hc : s.clientdata c = none)
    (hf : s.tunerPriv fe = none) : Inv (probe c fe true s).2 := by
  have hfe : Function.update s.frontend s.next fe s.next = fe := Function.update_self _ _ _
  have hold : ∀ {i}, i < s.next → Function.update s.frontend s.next fe i = s.frontend i :=
    fun hi => Function.update_of_ne (Nat.ne_of_lt hi) _ _
  simp only [probe,if_true,setFrontendOpts,hfe]
  refine ⟨⟨hs.clean.fault,fun c' i h => ?_,fun i hi h => ?_⟩,fun fe' i h => ?_,fun c' i h => ?_,
    fun i hi => hs.unfreed i (Nat.le_of_succ_le hi),fun c₁ c₂ i h₁ h₂ => ?_⟩
  · dsimp only
    rcases update_cases h with ⟨_,he⟩ | ⟨_,he⟩
    · obtain rfl := Option.some.inj he
      exact ⟨hs.unfreed _ le_rfl,by rw [hfe,Function.update_self]⟩
    · obtain ⟨h0,ht⟩ := hs.clean.own c' i he
      refine ⟨h0,?_⟩
      rw [hold (hs.fresh c' i he),Function.update_of_ne ?_,ht]
      rintro rfl
      exact absurd (hf.symm.trans ht) nofun
  · have hne : i ≠ s.next := by
      rintro rfl
      exact h c (Function.update_self _ _ _)
    have hlt : i < s.next := Nat.lt_of_le_of_ne (Nat.le_of_lt_succ hi) hne
    refine hs.clean.freed i hlt fun c' he => h c' ?_
    dsimp only
    rw [Function.update_of_ne ?_,he]
    rintro rfl
    exact absurd (hc.symm.trans he) nofun
  · rcases update_cases h with ⟨rfl,he⟩ | ⟨_,he⟩
    · obtain rfl := Option.some.inj he
      exact ⟨hfe,c,Function.update_self _ _ _⟩
    · obtain ⟨hi,c',hc'⟩ := hs.held fe' i he
      refine ⟨(hold (hs.fresh c' i hc')).trans hi,c',?_⟩
      dsimp only
      rw [Function.update_of_ne ?_,hc']
      rintro rfl
      exact absurd (hc.symm.trans hc') nofun
  · rcases update_cases h with ⟨_,he⟩ | ⟨_,he⟩
    · obtain rfl := Option.some.inj he
      exact Nat.lt_succ_self _
    · exact Nat.lt_succ_of_lt (hs.fresh c' i he)
  · rcases update_cases h₁ with ⟨he₁,hi₁⟩ | ⟨he₁,hi₁⟩ <;>
      rcases update_cases h₂ with ⟨he₂,hi₂⟩ | ⟨he₂,hi₂⟩
    · exact he₁.trans he₂.symm
    · exact absurd (Option.some.inj hi₁) (Nat.ne_of_gt (hs.fresh c₂ i hi₂))
    · exact absurd (Option.some.inj hi₂) (Nat.ne_of_gt (hs.fresh c₁ i hi₁))
    · exact hs.single c₁ c₂ i hi₁ hi₂

theorem inv_remove {s : Sys} (hs : Inv s) {c i : ℕ} (hc : s.clientdata c = some i) :
    Inv (remove c i s) := by
  obtain ⟨h0,ht⟩ := hs.clean.own c i hc
  have hne : ∀ {c' i'}, c' ≠ c → s.clientdata c' = some i' → i' ≠ i := by
    rintro c' i' hcc hi' rfl
    exact hcc (hs.single c' c i' hi' hc)
  simp only [remove,release,ht,kfree,h0,bne_self_eq_false,Bool.or_false]
  refine ⟨⟨hs.clean.fault,fun c' i' h => ?_,fun i' hi' h => ?_⟩,fun fe i' h => ?_,
    fun c' i' h => ?_,fun i' hi' => ?_,fun c₁ c₂ i' h₁ h₂ => ?_⟩
  · dsimp only
    rcases update_cases h with ⟨_,he⟩ | ⟨hcc,he⟩
    · cases he
    · obtain ⟨h0',ht'⟩ := hs.clean.own c' i' he
      refine ⟨by rw [Function.update_of_ne (hne hcc he),h0'],?_⟩
      rw [Function.update_of_ne ?_,ht']
      intro hf
      rw [hf,ht] at ht'
      exact hne hcc he (Option.some.inj ht').symm
  · dsimp only
    by_cases hi : i' = i
    · rw [hi,Function.update_self]
    · rw [Function.update_of_ne hi]
      refine hs.clean.freed i' hi' fun c' he => h c' ?_
      dsimp only
      rw [Function.update_of_ne ?_,he]
      rintro rfl
      exact hi (Option.some.inj (he.symm.trans hc))
  · rcases update_cases h with ⟨_,he⟩ | ⟨hfe,he⟩
    · cases he
    · obtain ⟨hi,c',hc'⟩ := hs.held fe i' he
      refine ⟨hi,c',?_⟩
      dsimp only
      rw [Function.update_of_ne ?_,hc']
      rintro rfl
      rw [Option.some.inj (hc'.symm.trans hc)] at hi
      exact hfe hi.symm
  · rcases update_cases h with ⟨_,he⟩ | ⟨_,he⟩
    · cases he
    · exact hs.fresh c' i' he
  · dsimp only
    rw [Function.update_of_ne ?_,hs.unfreed i' hi']
    exact Nat.ne_of_gt (Nat.lt_of_lt_of_le (hs.fresh c i hc) hi')
  · rcases update_cases h₁ with ⟨_,he₁⟩ | ⟨_,he₁⟩
    · cases he₁
    · rcases update_cases h₂ with ⟨_,he₂⟩ | ⟨_,he₂⟩
      · cases he₂
      · exact hs.single c₁ c₂ i' he₁ he₂

theorem inv_step (s : Sys) (a : Action) (s' : Sys) (hs : Inv s) (hk : Kept s a)
    (h : step s a = some s') : Inv s' := by
  cases step_cases h with
  | @probe c fe kzalloc hc =>
    cases kzalloc with
    | true => exact inv_probe hs hc (hk hc rfl)
    | false => exact hs
  | release hi =>
    rw [release_none (hk hi)]
    exact hs
  | remove hc => exact inv_remove hs hc

/-- A probe over another tuner takes its place, so that the remove of the other client would free
the wrong state; a release of a tuner that is there leaves the client with a freed one. -/
theorem unclean_step (s : Sys) (a : Action) (hs : Inv s) (hk : ¬ Kept s a) :
    ∃ s', step s a = some s' ∧ ¬ Clean s' := by
  cases a with
  | probe c fe kzalloc =>
    have hk' : ¬ (s.clientdata c = none → kzalloc = true → s.tunerPriv fe = none) := hk
    push Not at hk'
    obtain ⟨hc,rfl,ht⟩ := hk'
    obtain ⟨i,hi⟩ := Option.ne_none_iff_exists'.mp ht
    obtain ⟨hfe,c',hc'⟩ := hs.held fe i hi
    have hlt := hs.fresh c' i hc'
    have hcc : c' ≠ c := by
      rintro rfl
      exact absurd (hc.symm.trans hc') nofun
    refine ⟨_,if_pos hc,fun hn => ?_⟩
    have ho := (hn.own c' i ((Function.update_of_ne hcc _ _).trans hc')).2
    simp only [probe,if_true,setFrontendOpts,Function.update_self,
      Function.update_of_ne (Nat.ne_of_lt hlt),hfe,Option.some.injEq] at ho
    exact absurd ho (Nat.ne_of_gt hlt)
  | release fe =>
    have hk' : ¬ (s.installed fe = true → s.tunerPriv fe = none) := hk
    push Not at hk'
    obtain ⟨hi,ht⟩ := hk'
    obtain ⟨i,hi'⟩ := Option.ne_none_iff_exists'.mp ht
    obtain ⟨_,c,hc⟩ := hs.held fe i hi'
    refine ⟨_,if_pos hi,fun hn => ?_⟩
    have ho := (hn.own c i (by simpa only [release,hi',kfree] using hc)).1
    simp only [release,hi',kfree,Function.update_self] at ho
    exact absurd ho (Nat.succ_ne_zero _)
  | remove c => exact absurd trivial hk

/-- In every run the memory of the tuner states stays in order if and only if no successful probe
and no release comes to a frontend that has a tuner. -/
theorem clean_always_iff (as : List Action) :
    Always Clean step Sys.begin as ↔ Along Kept step Sys.begin as := by
  constructor
  · exact along_of_always unclean_step inv_step inv_begin
  · exact always_of_along inv_step (fun _ hs => hs.clean) inv_begin

/-- The frontend lets its tuner go before the client is removed. -/
example : ((run step Sys.begin [.probe 0 0 true,.release 0,.remove 0]).map (·.fault)) = some true :=
  by decide

end SatelliteInstances
end AkbPcr20x
