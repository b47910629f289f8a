import AkbPcr20x.Frontend

/-! Exclusive use of the two frontends over whole runs: after `akb_pcr20x_init` it
holds for every order of calls, and a run from zeroed data keeps the owner exactly when
`akb_pcr20x_init` finds both frontends closed. -/
namespace AkbPcr20x
namespace Ownership

open CountedLock Frontend Transition

variable {ω : Type}

/-- What a frontend meets while the other one owns the device. No call reaches the
I2C side. -/
structure Refused (env : Env ω) (s : Sys ω) (fe : Fe) : Prop where
  acquire : tsBusControl fe true s.priv = (-Errno.ebusy,s.priv)
  release : tsBusControl fe false s.priv = (0,s.priv)
  setFrontendS : setFrontendS env fe s.priv s.world = (-Errno.ebusy,s.world)
  setFrontendT : setFrontendT env fe s.priv s.world = (-Errno.ebusy,s.world)

structure Exclusive (env : Env ω) (s : Sys ω) : Prop where
  free_iff : s.priv.activeFe = none ↔ s.priv.openCount = 0
  single : ¬ (s.held .s ≠ 0 ∧ s.held .t ≠ 0)
  refused : ∀ fe fe', s.priv.activeFe = some fe → fe' ≠ fe → Refused env s fe'
  released : ∀ fe, s.priv.activeFe = some fe →
    ∃ s', run (step env) s (List.replicate (s.held fe) (.release fe)) = some s' ∧
      ∀ fe', (tsBusControl fe' true s'.priv).1 = 0
  closed : (∀ fe, s.held fe = 0) → ∀ fe, (tsBusControl fe true s.priv).1 = 0

theorem acquire_closed {s : Sys ω} (hs : Inv s) (h : ∀ fe, s.held fe = 0) (fe : Fe) :
    (tsBusControl fe true s.priv).1 = 0 := by
  obtain ⟨l,hl,hc⟩ := hs.lock
  have hf : l = .free := free_of_count fun fe => by rw [← hc,h]
  rw [hf] at hl
  rw [acquire_ok (Or.inl hl.1)]

theorem held_owner {s : Sys ω} (hs : Inv s) {fe : Fe} (h : s.held fe ≠ 0) :
    s.priv.activeFe = some fe ∧ s.priv.openCount.toNat = s.held fe := by
  obtain ⟨l,hl,hc⟩ := hs.lock
  rw [hc] at h ⊢
  exact hl.owner h

theorem held_single {s : Sys ω} (hs : Inv s) {fe fe' : Fe} (h : s.held fe ≠ 0)
    (h' : s.held fe' ≠ 0) : fe = fe' :=
  Option.some.inj ((held_owner hs h).1.symm.trans (held_owner hs h').1)

theorem run_releases (env : Env ω) {fe : Fe} (n : ℕ) {s : Sys ω} (hs : Inv s)
    (ha : s.attached = true) (hn : s.held fe = n) (ho : ∀ fe' ≠ fe, s.held fe' = 0) :
    ∃ s', run (step env) s (List.replicate n (.release fe)) = some s' ∧
      ∀ fe', (tsBusControl fe' true s'.priv).1 = 0 := by
  induction n generalizing s with
  | zero =>
    refine ⟨s,rfl,acquire_closed hs fun fe' => ?_⟩
    by_cases he : fe' = fe
    · rw [he,hn]
    · exact ho fe' he
  | succ n ih =>
    have hstep : step env s (.release fe) = some (releaseStep fe s) := if_pos ha
    rw [List.replicate_succ,run,hstep,Option.bind_some]
    refine ih (inv_release hs ha fe) ha ?_ fun fe' he => ?_
    · simp [releaseStep,hn]
    · simp [releaseStep,he,ho fe' he]

theorem refused_of_active (env : Env ω) {s : Sys ω} {fe fe' : Fe}
    (hS : s.priv.setFrontendS.isSome) (hT : s.priv.setFrontendT.isSome)
    (h : s.priv.activeFe = some fe) (hne : fe' ≠ fe) : Refused env s fe' := by
  obtain ⟨setS,hS⟩ := Option.isSome_iff_exists.mp hS
  obtain ⟨setT,hT⟩ := Option.isSome_iff_exists.mp hT
  have hsome : some fe ≠ some fe' := fun he => hne (Option.some.inj he).symm
  refine ⟨acquire_busy h hne,release_other (by rwa [h]),?_,?_⟩
  · simp [Frontend.setFrontendS,hS,h,hne.symm]
  · simp [Frontend.setFrontendT,hT,h,hne.symm]

/-- The parts of a ready state that the runs behind `init` keep. -/
structure Ready (s : Sys ω) : Prop where
  inv : Inv s
  attached : s.attached = true
  inited : s.inited = true
  hookS : s.priv.setFrontendS.isSome
  hookT : s.priv.setFrontendT.isSome

theorem tsBusControl_hooks (fe : Fe) (acquire : Bool) (p : Priv ω) :
    (tsBusControl fe acquire p).2.setFrontendS = p.setFrontendS ∧
      (tsBusControl fe acquire p).2.setFrontendT = p.setFrontendT := by
  simp only [tsBusControl]
  split_ifs <;> exact ⟨rfl,rfl⟩

theorem ready_step (env : Env ω) (s : Sys ω) (a : Action ω) (s' : Sys ω) (hs : Ready s)
    (hb : Bounded s a) (h : step env s a = some s') : Ready s' := by
  have hcalm : Calm s a := by
    refine ⟨hb,?_⟩
    cases a with
    | init => exact fun _ hi => absurd (hs.inited.symm.trans hi) nofun
    | _ => trivial
  have hinv := inv_step env s a s' hs.inv hcalm h
  cases step_cases h with
  | attach ha => exact absurd (hs.attached.symm.trans ha) nofun
  | init ha hi => exact absurd (hs.inited.symm.trans hi) nofun
  | @acquire fe ha =>
    obtain ⟨h₁,h₂⟩ := tsBusControl_hooks fe true s.priv
    exact ⟨hinv,hs.attached,hs.inited,by simpa [acquireStep,h₁] using hs.hookS,
      by simpa [acquireStep,h₂] using hs.hookT⟩
  | @release fe ha =>
    obtain ⟨h₁,h₂⟩ := tsBusControl_hooks fe false s.priv
    exact ⟨hinv,hs.attached,hs.inited,by simpa [releaseStep,h₁] using hs.hookS,
      by simpa [releaseStep,h₂] using hs.hookT⟩
  | setFrontendS ha => exact ⟨hinv,hs.attached,hs.inited,hs.hookS,hs.hookT⟩
  | setFrontendT ha => exact ⟨hinv,hs.attached,hs.inited,hs.hookS,hs.hookT⟩

theorem exclusive_of_ready (env : Env ω) {s : Sys ω} (hs : Ready s) : Exclusive env s := by
  obtain ⟨l,hl,hc⟩ := hs.inv.lock
  refine ⟨hl.free_iff,fun h => ?_,fun fe fe' h hne => ?_,fun fe h => ?_,
    acquire_closed hs.inv⟩
  · exact absurd (held_single hs.inv h.1 h.2) nofun
  · exact refused_of_active env hs.hookS hs.hookT h hne
  · refine run_releases env (s.held fe) hs.inv hs.attached rfl fun fe' hne => ?_
    rw [hc]
    exact (hl.count_of_active h).2 fe' hne

/-- From a ready device, every run of acquires, releases and `set_frontend` calls of
both frontends, with every I2C outcome, keeps the use exclusive. -/
theorem exclusive_run (env : Env ω) (setS setT : ω → ℤ × ω) (w : ω) {as : List (Action ω)}
    {s : Sys ω} (h : Exec (step env) (Sys.ready setS setT w) as s)
    (hb : Along Bounded (step env) (Sys.ready setS setT w) as) : Exclusive env s := by
  have h0 : Ready (Sys.ready setS setT w) :=
    ⟨⟨⟨.free,⟨rfl,rfl⟩,fun _ => rfl⟩,fun _ _ => rfl⟩,rfl,rfl,rfl,rfl⟩
  exact exclusive_of_ready env (h.invariant_along (ready_step env) h0 hb)

theorem step_held (env : Env ω) {s s' : Sys ω} {a : Action ω} (h : step env s a = some s')
    (fe : Fe) : s'.held fe ≤ s.held fe + 1 := by
  cases step_cases h with
  | @acquire fe' ha =>
    simp only [acquireStep]
    split_ifs
    · by_cases he : fe = fe'
      · rw [he,Function.update_self]
      · rw [Function.update_of_ne he]
        omega
    · omega
  | @release fe' ha =>
    by_cases he : fe = fe'
    · simp only [releaseStep,he,Function.update_self]
      omega
    · simp only [releaseStep,Function.update_of_ne he]
      omega
  | attach | init | setFrontendS | setFrontendT => exact Nat.le_succ _

theorem bounded_of_length (env : Env ω) {s : Sys ω} {as : List (Action ω)}
    (h : ∀ fe, s.held fe + as.length < 2^32) : Along Bounded (step env) s as := by
  induction as generalizing s with
  | nil => trivial
  | cons a as ih =>
    refine ⟨?_,fun t ht => ih fun fe => ?_⟩
    · cases a with
      | acquire fe =>
        have hb := h fe
        simp only [List.length_cons] at hb
        simp only [Bounded]
        omega
      | _ => trivial
    · have hb := h fe
      have hle := step_held env ht fe
      simp only [List.length_cons] at hb
      omega

def goodEnv : Env Unit := ⟨fun _ _ _ w => (1,w),0x11,0x10⟩

/-- The second frontend is refused while the first one is open twice. -/
def contention : List (Action Unit) :=
  [.acquire .s,.setFrontendS .s,.acquire .s,.acquire .t,.setFrontendT .t,.release .t,.release .s]

theorem exclusive_run_sample :
    ∃ s, Exec (step goodEnv) (Sys.ready (fun w => (0,w)) (fun w => (0,w)) ()) contention s ∧
      Exclusive goodEnv s := by
  have hr : (run (step goodEnv) (Sys.ready (fun w => (0,w)) (fun w => (0,w)) ())
      contention).isSome := by decide
  obtain ⟨s,hs⟩ := Option.isSome_iff_exists.mp hr
  refine ⟨s,exec_of_run hs,exclusive_run goodEnv _ _ _ (exec_of_run hs) ?_⟩
  exact bounded_of_length goodEnv fun fe => by simp [Sys.ready,contention]

/-- A frontend that holds an acquire is the owner, and the other one is refused. -/
def Owned (s : Sys ω) : Prop :=
  ∀ fe, s.held fe ≠ 0 → s.priv.activeFe = some fe ∧ s.priv.openCount ≠ 0 ∧
    ∀ fe' ≠ fe, (tsBusControl fe' true s.priv).1 = -Errno.ebusy

theorem owned_of_inv {s : Sys ω} (hs : Inv s) : Owned s := by
  intro fe h
  obtain ⟨ha,ho⟩ := held_owner hs h
  refine ⟨ha,fun h0 => ?_,fun fe' hne => by rw [acquire_busy ha hne]⟩
  rw [h0] at ho
  exact h ho.symm

/-- A step that breaks the condition loses the owner. -/
theorem lost_of_not_calm (env : Env ω) (s : Sys ω) (a : Action ω) (hs : Inv s)
    (hc : ¬ Calm s a) : ∃ s', step env s a = some s' ∧ ¬ Owned s' := by
  cases a with
  | init =>
    have hn : ¬ (s.attached = true → s.inited = false → ∀ fe, s.held fe = 0) :=
      fun h => hc ⟨trivial,h⟩
    push Not at hn
    obtain ⟨ha,hi,fe,hh⟩ := hn
    refine ⟨_,if_pos ⟨ha,hi⟩,fun ho => ?_⟩
    exact absurd (ho fe hh).1 nofun
  | acquire fe =>
    have hb : ¬ s.held fe + 1 < 2^32 := fun h => hc ⟨h,trivial⟩
    have hh : s.held fe ≠ 0 := by omega
    have ha : s.attached = true := by
      by_contra hn
      exact hh (hs.detached (Bool.eq_false_iff.mpr hn) fe)
    obtain ⟨hact,ho⟩ := held_owner hs hh
    have hzero : s.priv.openCount + 1 = 0 := by bv_omega
    refine ⟨_,if_pos ha,fun hown => ?_⟩
    have hk := hown fe (by simp [acquireStep,acquire_ok (Or.inr hact)])
    simp only [acquireStep,acquire_ok (Or.inr hact),hzero] at hk
    exact hk.2.1 rfl
  | _ => exact absurd ⟨trivial,trivial⟩ hc

/-- In a run from zeroed data every holder stays the owner if and only if `init` finds
both frontends closed and no frontend is opened 2^32 times. -/
theorem owned_always_iff (env : Env ω) (w : ω) (as : List (Action ω)) :
    Always Owned (step env) (Sys.zero w) as ↔ Along Calm (step env) (Sys.zero w) as := by
  have h0 : Inv (Sys.zero w) := ⟨⟨.free,⟨rfl,rfl⟩,fun _ => rfl⟩,fun _ _ => rfl⟩
  constructor
  · exact along_of_always (lost_of_not_calm env) (inv_step env) h0
  · exact always_of_along (inv_step env) (fun _ => owned_of_inv) h0

/-- The ISDB-S frontend is opened before `init` runs; then the ISDB-T frontend opens
as well. -/
theorem lost_sample :
    ∃ s, Exec (step goodEnv) (Sys.zero ())
        [.attach (fun w => (0,w)) (fun w => (0,w)) (),.acquire .s,.init,.acquire .t] s ∧
      s.held .s = 1 ∧ s.held .t = 1 ∧ s.priv.activeFe = some .t ∧
      ¬ Always Owned (step goodEnv) (Sys.zero ())
        [.attach (fun w => (0,w)) (fun w => (0,w)) (),.acquire .s,.init,.acquire .t] := by
  have hr : (run (step goodEnv) (Sys.zero ())
      [.attach (fun w => (0,w)) (fun w => (0,w)) (),.acquire .s,.init,.acquire .t]).map
        (fun s => (s.held .s,s.held .t,s.priv.activeFe)) = some (1,1,some .t) := by decide
  obtain ⟨s,hs,hd⟩ := Option.map_eq_some_iff.mp hr
  simp only [Prod.mk.injEq] at hd
  refine ⟨s,exec_of_run hs,hd.1,hd.2.1,hd.2.2,fun h => ?_⟩
  have ho := (h.2 _ rfl).2 _ rfl
  have hi := (ho.2 _ rfl).head .s nofun
  exact absurd hi.1 nofun

end Ownership
end AkbPcr20x
