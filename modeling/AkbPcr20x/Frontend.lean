import AkbPcr20x.Basic
import AkbPcr20x.CountedLock
import AkbPcr20x.Transition

/-! The two frontends share one device. `akb_pcr20x_ts_bus_control` keeps an owner and
a count under `mutex_fe`; every operation here is one call with that mutex held. -/
namespace AkbPcr20x
namespace Frontend

open CountedLock Transition

inductive Fe
  | s
  | t
  deriving DecidableEq

variable {ω : Type}

/-- What the frontend operations use of `struct akb_pcr20x`. The saved `set_frontend`
operations of the demodulators are present after the attach. -/
structure Priv (ω : Type) where
  activeFe : Option Fe
  openCount : BitVec 32
  setFrontendS : Option (ω → ℤ × ω)
  setFrontendT : Option (ω → ℤ × ω)

/-- `i2c_transfer` of a register and its value, and the demodulator addresses. -/
structure Env (ω : Type) where
  i2cTransfer : Byte → Byte → Byte → ω → ℤ × ω
  demodS : Byte
  demodT : Byte

def tsBusControl (fe : Fe) (acquire : Bool) (p : Priv ω) : ℤ × Priv ω :=
  if acquire then
    if p.activeFe ≠ none ∧ p.activeFe ≠ some fe then (-Errno.ebusy,p)
    else (0,{p with activeFe := some fe, openCount := p.openCount + 1})
  else if p.activeFe = some fe ∧ 0 < p.openCount then
    if p.openCount - 1 = 0 then (0,{p with activeFe := none, openCount := p.openCount - 1})
    else (0,{p with openCount := p.openCount - 1})
  else (0,p)

def i2cWriteLoop (env : Env ω) (addr : Byte) : List (Byte × Byte) → ω → ℤ × ω
  | [], w => (0,w)
  | rv::regval, w =>
    let r := env.i2cTransfer addr rv.1 rv.2 w
    if r.1 < 0 then r else i2cWriteLoop env addr regval r.2

def i2cWrite (env : Env ω) (addr : Byte) (regval : List (Byte × Byte)) (w : ω) : ℤ × ω :=
  if regval = [] then (-Errno.einval,w) else i2cWriteLoop env addr regval w

def setFrontendS (env : Env ω) (fe : Fe) (p : Priv ω) (w : ω) : ℤ × ω :=
  match p.setFrontendS with
  | none => (-Errno.einval,w)
  | some setFrontend =>
    if p.activeFe ≠ none ∧ p.activeFe ≠ some fe then (-Errno.ebusy,w)
    else
      let r := i2cWrite env env.demodT [(0x0e,0x77),(0x0f,0x77)] w
      if r.1 < 0 then r
      else
        let r := i2cWrite env env.demodS
          [(0x06,0x40),(0x07,0x11),(0x08,0x11),(0x85,0x7a),(0x8e,0x26),(0xa3,0xf7)] r.2
        if r.1 < 0 then r
        else
          let r := setFrontend r.2
          if r.1 < 0 then r else (0,r.2)

def setFrontendT (env : Env ω) (fe : Fe) (p : Priv ω) (w : ω) : ℤ × ω :=
  match p.setFrontendT with
  | none => (-Errno.einval,w)
  | some setFrontend =>
    if p.activeFe ≠ none ∧ p.activeFe ≠ some fe then (-Errno.ebusy,w)
    else
      let r := i2cWrite env env.demodT [(0x0e,0x11),(0x0f,0x11),(0x71,0x20),(0x76,0x08)] w
      if r.1 < 0 then r
      else
        let r := setFrontend r.2
        if r.1 < 0 then r else (0,r.2)

/-- `akb_pcr20x_init`, which the framework calls after the frontends are registered. -/
def init (p : Priv ω) : Priv ω := {p with activeFe := none, openCount := 0}

structure Sys (ω : Type) where
  priv : Priv ω
  world : ω
  held : Fe → ℕ
  attached : Bool
  inited : Bool

/-- Attaching saves the operations of the demodulators and uses the I2C bus. -/
inductive Action (ω : Type)
  | attach (setS setT : ω → ℤ × ω) (w : ω)
  | init
  | acquire (fe : Fe)
  | release (fe : Fe)
  | setFrontendS (fe : Fe)
  | setFrontendT (fe : Fe)

def acquireStep (fe : Fe) (s : Sys ω) : Sys ω :=
  let r := tsBusControl fe true s.priv
  {s with priv := r.2,
          held := if r.1 = 0 then Function.update s.held fe (s.held fe + 1) else s.held}

def releaseStep (fe : Fe) (s : Sys ω) : Sys ω :=
  let r := tsBusControl fe false s.priv
  {s with priv := r.2, held := Function.update s.held fe (s.held fe - 1)}

/-- The attach and `init` happen once each, `init` and the frontend operations only
behind the attach. -/
def step (env : Env ω) (s : Sys ω) : Action ω → Option (Sys ω)
  | .attach setS setT w =>
    if s.attached then none
    else some {s with priv := {s.priv with setFrontendS := some setS, setFrontendT := some setT},
                      world := w, attached := true}
  | .init =>
    if s.attached ∧ s.inited = false then some {s with priv := Frontend.init s.priv, inited := true}
    else none
  | .acquire fe => if s.attached then some (acquireStep fe s) else none
  | .release fe => if s.attached then some (releaseStep fe s) else none
  | .setFrontendS fe =>
    if s.attached then some {s with world := (setFrontendS env fe s.priv s.world).2} else none
  | .setFrontendT fe =>
    if s.attached then some {s with world := (setFrontendT env fe s.priv s.world).2} else none

inductive Step (env : Env ω) (s : Sys ω) : Action ω → Sys ω → Prop
  | attach {setS setT w} (ha : s.attached = false) :
      Step env s (.attach setS setT w)
        {s with priv := {s.priv with setFrontendS := some setS, setFrontendT := some setT},
                world := w, attached := true}
  | init (ha : s.attached = true) (hi : s.inited = false) :
      Step env s .init {s with priv := Frontend.init s.priv, inited := true}
  | acquire {fe} (ha : s.attached = true) : Step env s (.acquire fe) (acquireStep fe s)
  | release {fe} (ha : s.attached = true) : Step env s (.release fe) (releaseStep fe s)
  | setFrontendS {fe} (ha : s.attached = true) :
      Step env s (.setFrontendS fe) {s with world := (setFrontendS env fe s.priv s.world).2}
  | setFrontendT {fe} (ha : s.attached = true) :
      Step env s (.setFrontendT fe) {s with world := (setFrontendT env fe s.priv s.world).2}

theorem step_cases {env : Env ω} {s s' : Sys ω} {a : Action ω} (h : step env s a = some s') :
    Step env s a s' := by
  cases a with
  | attach setS setT w =>
    simp only [step,Option.ite_none_left_eq_some,Option.some.injEq] at h
    exact h.2 ▸ .attach (Bool.eq_false_iff.mpr h.1)
  | init =>
    simp only [step,Option.ite_none_right_eq_some,Option.some.injEq] at h
    exact h.2 ▸ .init h.1.1 h.1.2
  | acquire fe =>
    simp only [step,Option.ite_none_right_eq_some,Option.some.injEq] at h
    exact h.2 ▸ .acquire h.1
  | release fe =>
    simp only [step,Option.ite_none_right_eq_some,Option.some.injEq] at h
    exact h.2 ▸ .release h.1
  | setFrontendS fe =>
    simp only [step,Option.ite_none_right_eq_some,Option.some.injEq] at h
    exact h.2 ▸ .setFrontendS h.1
  | setFrontendT fe =>
    simp only [step,Option.ite_none_right_eq_some,Option.some.injEq] at h
    exact h.2 ▸ .setFrontendT h.1

def Sys.zero (w : ω) : Sys ω := ⟨⟨none,0,none,none⟩,w,fun _ => 0,false,false⟩

def Sys.ready (setS setT : ω → ℤ × ω) (w : ω) : Sys ω :=
  ⟨⟨none,0,some setS,some setT⟩,w,fun _ => 0,true,true⟩

theorem run_attach_init (env : Env ω) (setS setT : ω → ℤ × ω) (w w' : ω) :
    run (step env) (Sys.zero w) [.attach setS setT w',.init] = some (Sys.ready setS setT w') :=
  rfl

/-- Owner and count of the driver stand for a counted lock. -/
def Refines (p : Priv ω) : Lock Fe → Prop
  | .free => p.activeFe = none ∧ p.openCount = 0
  | .held fe n => p.activeFe = some fe ∧ p.openCount.toNat = n+1

theorem Refines.free_iff {p : Priv ω} {l : Lock Fe} (h : Refines p l) :
    p.activeFe = none ↔ p.openCount = 0 := by
  cases l with
  | free => exact iff_of_true h.1 h.2
  | held fe n =>
    refine iff_of_false (by rw [h.1]; exact nofun) fun h0 => ?_
    have hn := h.2
    rw [h0] at hn
    exact absurd hn (by simp)

theorem Refines.owner {p : Priv ω} {l : Lock Fe} (h : Refines p l) {fe : Fe}
    (hc : count fe l ≠ 0) : p.activeFe = some fe ∧ p.openCount.toNat = count fe l := by
  cases l with
  | free => exact absurd rfl hc
  | held fe' n =>
    obtain rfl : fe' = fe := by
      by_contra hne
      exact hc (count_held_of_ne hne n)
    rw [count_held_self]
    exact h

theorem Refines.count_of_active {p : Priv ω} {l : Lock Fe} (h : Refines p l) {fe : Fe}
    (ha : p.activeFe = some fe) : count fe l ≠ 0 ∧ ∀ fe' ≠ fe, count fe' l = 0 := by
  cases l with
  | free => exact absurd (h.1.symm.trans ha) nofun
  | held fe' n =>
    obtain rfl : fe' = fe := Option.some.inj (h.1.symm.trans ha)
    exact ⟨by simp,fun fe hne => count_held_of_ne hne.symm n⟩

theorem acquire_ok {p : Priv ω} {fe : Fe} (h : p.activeFe = none ∨ p.activeFe = some fe) :
    tsBusControl fe true p = (0,{p with activeFe := some fe, openCount := p.openCount + 1}) := by
  have hn : ¬ (p.activeFe ≠ none ∧ p.activeFe ≠ some fe) := by
    rintro ⟨h₁,h₂⟩
    exact h.elim h₁ h₂
  rw [tsBusControl,if_pos rfl,if_neg hn]

theorem acquire_busy {p : Priv ω} {fe fe' : Fe} (h : p.activeFe = some fe) (hne : fe' ≠ fe) :
    tsBusControl fe' true p = (-Errno.ebusy,p) := by
  have hb : p.activeFe ≠ none ∧ p.activeFe ≠ some fe' := by
    rw [h]
    exact ⟨nofun,fun he => hne (Option.some.inj he).symm⟩
  rw [tsBusControl,if_pos rfl,if_pos hb]

theorem release_other {p : Priv ω} {fe : Fe} (h : p.activeFe ≠ some fe) :
    tsBusControl fe false p = (0,p) := by
  rw [tsBusControl,if_neg Bool.false_ne_true,if_neg fun hn => h hn.1]

theorem release_last {p : Priv ω} {fe : Fe} (h : p.activeFe = some fe)
    (hc : p.openCount.toNat = 1) :
    tsBusControl fe false p = (0,{p with activeFe := none, openCount := p.openCount - 1}) := by
  have hpos : 0 < p.openCount := by bv_omega
  have h0 : p.openCount - 1 = 0 := by bv_omega
  rw [tsBusControl,if_neg Bool.false_ne_true,if_pos ⟨h,hpos⟩,if_pos h0]

theorem release_more {p : Priv ω} {fe : Fe} (h : p.activeFe = some fe)
    (hc : 1 < p.openCount.toNat) :
    tsBusControl fe false p = (0,{p with openCount := p.openCount - 1}) := by
  have hpos : 0 < p.openCount := by bv_omega
  have h0 : p.openCount - 1 ≠ 0 := by bv_omega
  rw [tsBusControl,if_neg Bool.false_ne_true,if_pos ⟨h,hpos⟩,if_neg h0]

/-- An acquire of the driver is an acquire of the lock, as long as the count fits. -/
theorem acquire_refines {p : Priv ω} {l : Lock Fe} (h : Refines p l) (fe : Fe)
    (hb : count fe l + 1 < 2^32) :
    (tsBusControl fe true p).1 = (if (acquire fe l).1 then 0 else -Errno.ebusy) ∧
      Refines (tsBusControl fe true p).2 (acquire fe l).2 := by
  cases l with
  | free =>
    obtain ⟨ha,hc⟩ := h
    rw [acquire_ok (Or.inl ha),hc]
    exact ⟨rfl,rfl,rfl⟩
  | held fe' n =>
    obtain ⟨ha,hc⟩ := h
    by_cases he : fe' = fe
    · subst he
      rw [count_held_self] at hb
      have ho : (p.openCount + 1).toNat = n+1+1 := by
        rw [BitVec.toNat_add,hc]
        exact Nat.mod_eq_of_lt hb
      rw [acquire_ok (Or.inr ha),acquire,if_pos rfl]
      exact ⟨rfl,rfl,ho⟩
    · rw [acquire_busy ha (Ne.symm he),acquire,if_neg he]
      exact ⟨rfl,ha,hc⟩

theorem release_refines {p : Priv ω} {l : Lock Fe} (h : Refines p l) (fe : Fe) :
    (tsBusControl fe false p).1 = 0 ∧ Refines (tsBusControl fe false p).2 (release fe l) := by
  cases l with
  | free =>
    rw [release_other (by rw [h.1]; exact nofun)]
    exact ⟨rfl,h⟩
  | held fe' n =>
    obtain ⟨ha,hc⟩ := h
    by_cases he : fe' = fe
    · subst he
      cases n with
      | zero =>
        rw [release_last ha hc,release,if_pos rfl]
        exact ⟨rfl,rfl,by bv_omega⟩
      | succ n =>
        have ho : (p.openCount - 1).toNat = n+1 := by bv_omega
        rw [release_more ha (by omega),release,if_pos rfl]
        exact ⟨rfl,ha,ho⟩
    · have hne : p.activeFe ≠ some fe := fun hs => he (Option.some.inj (ha.symm.trans hs))
      rw [release_other hne]
      cases n with
      | zero =>
        rw [release,if_neg he]
        exact ⟨rfl,ha,hc⟩
      | succ n =>
        rw [release,if_neg he]
        exact ⟨rfl,ha,hc⟩

/-- Fewer than 2^32 opens of a frontend are outstanding. -/
def Bounded (s : Sys ω) : Action ω → Prop
  | .acquire fe => s.held fe + 1 < 2^32
  | _ => True

/-- `init` also finds both frontends closed. -/
def Calm (s : Sys ω) (a : Action ω) : Prop :=
  Bounded s a ∧ match a with
    | .init => s.attached = true → s.inited = false → ∀ fe, s.held fe = 0
    | _ => True

/-- The driver stands for a counted lock, whose counts are the acquires held. -/
structure Inv (s : Sys ω) : Prop where
  lock : ∃ l, Refines s.priv l ∧ ∀ fe, s.held fe = count fe l
  detached : s.attached = false → ∀ fe, s.held fe = 0

theorem inv_acquire {s : Sys ω} (hs : Inv s) (ha : s.attached = true) {fe : Fe}
    (hb : s.held fe + 1 < 2^32) : Inv (acquireStep fe s) := by
  obtain ⟨l,hl,hc⟩ := hs.lock
  obtain ⟨hr,hl'⟩ := acquire_refines hl fe (by rwa [← hc])
  refine ⟨⟨_,hl',fun fe' => ?_⟩,fun hn => absurd (ha.symm.trans hn) nofun⟩
  simp only [acquireStep,hr]
  cases hk : (acquire fe l).1 with
  | true =>
    rw [count_acquire hk]
    by_cases he : fe' = fe
    · subst he
      simp [hc]
    · simp [he,hc]
  | false =>
    rw [(acquire_refused hk).1]
    simp [Errno.ebusy,hc]

theorem inv_release {s : Sys ω} (hs : Inv s) (ha : s.attached = true) (fe : Fe) :
    Inv (releaseStep fe s) := by
  obtain ⟨l,hl,hc⟩ := hs.lock
  refine ⟨⟨_,(release_refines hl fe).2,fun fe' => ?_⟩,fun hn => absurd (ha.symm.trans hn) nofun⟩
  rw [count_release]
  by_cases he : fe' = fe
  · subst he
    simp [releaseStep,hc]
  · simp [releaseStep,he,hc]

theorem inv_step (env : Env ω) (s : Sys ω) (a : Action ω) (s' : Sys ω) (hs : Inv s)
    (hc : Calm s a) (h : step env s a = some s') : Inv s' := by
  cases step_cases h with
  | attach ha =>
    obtain ⟨l,hl,hcount⟩ := hs.lock
    refine ⟨⟨l,?_,hcount⟩,nofun⟩
    cases l <;> exact hl
  | init ha hi => exact ⟨⟨.free,⟨rfl,rfl⟩,hc.2 ha hi⟩,hs.detached⟩
  | acquire ha => exact inv_acquire hs ha hc.1
  | release ha => exact inv_release hs ha _
  | setFrontendS ha => exact ⟨hs.lock,hs.detached⟩
  | setFrontendT ha => exact ⟨hs.lock,hs.detached⟩

end Frontend
end AkbPcr20x
