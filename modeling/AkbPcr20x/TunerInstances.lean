import AkbPcr20x.Basic
import AkbPcr20x.Pointers
import AkbPcr20x.Transition

/-! The instance list of the ISDB-T tuner under probes, releases through the installed
tuner operation and removes in any order. Adapters, clients and frontends are numbers,
and a state structure is known by the number of its allocation. Every operation holds
`mxl5007t_list_mutex` over its use of the list. -/
namespace AkbPcr20x
namespace TunerInstances

open Transition Pointers

/-- `struct mxl5007t_config`, of which only the frontend matters here. -/
structure Config where
  frontend : Option ℕ
  deriving DecidableEq

/-- `struct mxl5007t_state` with its `i2c_props`. The config of a fresh allocation is the
null pointer. -/
structure Instance where
  id : ℕ
  adap : ℕ
  addr : Byte
  count : ℤ
  config : Option Config
  deriving DecidableEq

def Instance.frontend (x : Instance) : Option ℕ := x.config.bind (·.frontend)

structure Client where
  name : ℕ
  adapter : ℕ
  addr : Word
  platformData : Option Config

def Client.frontend (c : Client) : Option ℕ := c.platformData.bind (·.frontend)

/-- A client between its probe and its remove. -/
structure Bound where
  client : ℕ
  frontend : ℕ
  clientdata : Option ℕ
  deriving DecidableEq

/-- What an attach meets: the allocation and the results of `i2c_transfer`. -/
structure Reply where
  kzalloc : Bool
  chipId : ℤ
  softReset : ℤ
  writeReg : ℤ

structure Sys where
  next : ℕ
  list : List Instance
  tunerPriv : ℕ → Option ℕ
  installed : ℕ → Bool
  bound : List Bound

def Sys.begin : Sys := ⟨0,[],fun _ => none,fun _ => false,[]⟩

def transferred (num ret : ℤ) : ℤ := if ret ≠ num then -Errno.eremoteio else 0

def mxlFail (ret : ℤ) : Bool := ret < 0

def getChipId (o : Reply) : ℤ := transferred 2 o.chipId

def softReset (o : Reply) : ℤ := transferred 1 o.softReset

def writeReg (o : Reply) : ℤ := transferred 1 o.writeReg

def Sys.install (fe state : ℕ) (s : Sys) : Sys :=
  {s with tunerPriv := Function.update s.tunerPriv fe (some state),
          installed := Function.update s.installed fe true}

/-- A write through the pointer to state structure `i`. -/
def Sys.modify (i : ℕ) (f : Instance → Instance) (s : Sys) : Sys :=
  {s with list := s.list.map fun x => if x.id = i then f x else x}

def Sys.find (i2cadap : ℕ) (i2caddr : Byte) (s : Sys) : Option Instance :=
  s.list.find? fun x => x.adap == i2cadap && x.addr == i2caddr

/-- A read through the pointer to state structure `i`, which fails once it is freed. -/
def Sys.deref (i : ℕ) (s : Sys) : Option Instance := s.list.find? (·.id == i)

/-- `hybrid_tuner_request_state`: the count that it returns and the instance. -/
def requestState (i2cadap : ℕ) (i2caddr : Byte) (kzalloc : Bool) (s : Sys) :
    ℤ × Option ℕ × Sys :=
  let r : ℤ × Option ℕ × Sys :=
    match s.find i2cadap i2caddr with
    | some x => (x.count+1,some x.id,s.modify x.id fun y => {y with count := y.count+1})
    | none => (0,none,s)
  if r.1 = 0 then
    let s := r.2.2
    if kzalloc then
      (1,some s.next,{s with next := s.next+1, list := s.list ++ [⟨s.next,i2cadap,i2caddr,1,none⟩]})
    else (0,none,s)
  else r

def releaseState (state : ℕ) (s : Sys) : Sys :=
  let s := s.modify state fun x => {x with count := x.count-1}
  {s with list := s.list.filter fun x => !(x.id == state && x.count == 0)}

def release (fe : ℕ) (s : Sys) : Sys :=
  let s := match s.tunerPriv fe with
    | some state => releaseState state s
    | none => s
  {s with tunerPriv := Function.update s.tunerPriv fe none}

/-- `mxl5007t_attach`; the result tells whether it returned the frontend. -/
def attach (fe i2c : ℕ) (addr : Byte) (cfg : Config) (o : Reply) (s : Sys) : Bool × Sys :=
  match requestState i2c addr o.kzalloc s with
  | (_,none,s) => (false,release fe s)
  | (instance_,some state,s) =>
    let s := if instance_ = 1 then s.modify state fun x => {x with config := some cfg} else s
    if instance_ = 1 ∧ mxlFail (getChipId o) then (false,release fe s)
    else if mxlFail (softReset o) then (false,release fe s)
    else if mxlFail (writeReg o) then (false,release fe s)
    else (true,s.install fe state)

def Sys.setClientdata (client fe : ℕ) (s : Sys) : Sys :=
  {s with bound := ⟨client,fe,s.tunerPriv fe⟩ :: s.bound}

def probe (c : Client) (o : Reply) (s : Sys) : ℤ × Sys :=
  match c.platformData with
  | none => (-Errno.einval,s)
  | some cfg =>
    match cfg.frontend with
    | none => (-Errno.einval,s)
    | some fe =>
      let r := attach fe c.adapter (c.addr.setWidth 8) cfg o s
      if r.1 then (0,r.2.setClientdata c.name fe) else (-Errno.enodev,r.2)

/-- `none` is a read of freed memory or through a null pointer. -/
def remove (b : Bound) (s : Sys) : Option Sys :=
  match b.clientdata with
  | none => some s
  | some state => (s.deref state).bind fun x => x.frontend.map fun fe => release fe s

inductive Action
  | probe (c : Client) (o : Reply)
  | release (fe : ℕ)
  | remove (client : ℕ)

def Sys.client (n : ℕ) (s : Sys) : Option Bound := s.bound.find? (·.client == n)

/-- The client is not bound yet, and no other client has its frontend. -/
def Admitted (s : Sys) (c : Client) : Prop :=
  ∀ b ∈ s.bound, b.client ≠ c.name ∧ c.frontend ≠ some b.frontend

instance (s : Sys) (c : Client) : Decidable (Admitted s c) :=
  inferInstanceAs (Decidable (∀ b ∈ s.bound, b.client ≠ c.name ∧ c.frontend ≠ some b.frontend))

/-- A bound client is unbound by its remove. -/
def step (s : Sys) : Action → Option Sys
  | .probe c o => if Admitted s c then some (probe c o s).2 else none
  | .release fe => if s.installed fe then some (release fe s) else none
  | .remove n =>
    (s.client n).bind fun b => remove b {s with bound := s.bound.filter (·.client != n)}

def Listed (s : Sys) (i : ℕ) : Prop := ∃ x ∈ s.list, x.id = i

/-- The instance list in a state between two operations. -/
structure Consistent (s : Sys) : Prop where
  counted : ∀ x ∈ s.list, x.count = refs s.tunerPriv x.id
  used : ∀ x ∈ s.list, x.count ≠ 0
  held : ∀ b ∈ s.bound, ∀ i, b.clientdata = some i → Listed s i

/-- A probe that fails leaves the list and all counts as it found them. -/
def Undone (s : Sys) : Action → Prop
  | .probe c o => ∀ t, step s (.probe c o) = some t → (probe c o s).1 < 0 → t.list = s.list
  | _ => True

/-- The release takes the last reference of instance `i`. -/
def Last (s : Sys) (fe i : ℕ) : Prop :=
  s.tunerPriv fe = some i ∧ ∃ x ∈ s.list, x.id = i ∧ x.count = 1

/-- What an attach has to meet to return the frontend, unless there is no instance at all. -/
def Answered (s : Sys) (i2c : ℕ) (addr : Byte) (o : Reply) : Prop :=
  match s.find i2c addr with
  | some _ => o.softReset = 1 ∧ o.writeReg = 1
  | none => o.kzalloc = true → o.chipId = 2 ∧ o.softReset = 1 ∧ o.writeReg = 1

/-- The steps that keep the list: probes of frontends without a tuner whose transfers
succeed, and releases and removes that take the last reference of no instance that a
client still bound holds. -/
def Sound (s : Sys) : Action → Prop
  | .probe c o => Admitted s c → ∀ fe, c.frontend = some fe →
    s.tunerPriv fe = none ∧ Answered s c.adapter (c.addr.setWidth 8) o
  | .release fe => s.installed fe = true → ∀ i, Last s fe i →
    ∀ b ∈ s.bound, b.clientdata ≠ some i
  | .remove n => ∀ b, s.client n = some b → ∀ state, b.clientdata = some state →
    ∀ x, s.deref state = some x → ∀ fe, x.frontend = some fe → ∀ i, Last s fe i →
    ∀ b' ∈ s.bound, b'.client ≠ n → b'.clientdata ≠ some i

/-- The counts inside an operation: instance `extra` has been handed out and no frontend
points at it for that yet. -/
structure Counts (s : Sys) (extra : Option ℕ) : Prop where
  counted : ∀ x ∈ s.list,
    x.count = refs s.tunerPriv x.id + if extra = some x.id then 1 else 0
  used : ∀ x ∈ s.list, x.count ≠ 0
  fresh : ∀ x ∈ s.list, x.id < s.next
  pointed : ∀ fe i, s.tunerPriv fe = some i → Listed s i
  sparse : Sparse s.tunerPriv
  configured : ∀ x ∈ s.list, x.frontend.isSome

structure Inv (s : Sys) : Prop where
  counts : Counts s none
  held : ∀ b ∈ s.bound, ∀ i, b.clientdata = some i → Listed s i

theorem Counts.pos {s : Sys} {e : Option ℕ} (h : Counts s e) {x : Instance} (hx : x ∈ s.list) :
    1 ≤ x.count := by
  have hc := h.counted x hx
  have hu := h.used x hx
  split_ifs at hc <;> omega

theorem Counts.unique {s : Sys} {e : Option ℕ} (h : Counts s e) {x y : Instance}
    (hx : x ∈ s.list) (hy : y ∈ s.list) (hid : x.id = y.id) : x.count = y.count := by
  rw [h.counted x hx,h.counted y hy,hid]

theorem Inv.consistent {s : Sys} (h : Inv s) : Consistent s :=
  ⟨fun x hx => by simpa using h.counts.counted x hx,h.counts.used,h.held⟩

theorem refs_pos {s : Sys} {fe i : ℕ} (hs : Sparse s.tunerPriv) (h : s.tunerPriv fe = some i) :
    refs s.tunerPriv i = refs (Function.update s.tunerPriv fe none) i + 1 := by
  rw [refs_split hs fe i,if_pos h]

theorem Counts.shared {s : Sys} {e : Option ℕ} (hs : Counts s e) {fe fe' : ℕ} {x : Instance}
    (hne : fe' ≠ fe) (h : s.tunerPriv fe = some x.id) (h' : s.tunerPriv fe' = some x.id)
    (hx : x ∈ s.list) : 2 ≤ x.count := by
  have hc := hs.counted x hx
  have hu : Function.update s.tunerPriv fe none fe' = some x.id := by
    rwa [Function.update_of_ne hne]
  rw [refs_pos hs.sparse h,refs_split (hs.sparse.update fe none) fe',if_pos hu] at hc
  split_ifs at hc <;> omega

theorem release_none {s : Sys} {fe : ℕ} (h : s.tunerPriv fe = none) : release fe s = s := by
  have hu : Function.update s.tunerPriv fe none = s.tunerPriv := by
    rw [Function.update_eq_self_iff,h]
  simp [release,h,hu]

theorem release_tunerPriv (fe : ℕ) (s : Sys) :
    (release fe s).tunerPriv = Function.update s.tunerPriv fe none := by
  cases h : s.tunerPriv fe <;> simp [release,releaseState,Sys.modify,h]

theorem release_next (fe : ℕ) (s : Sys) : (release fe s).next = s.next := by
  cases h : s.tunerPriv fe <;> simp [release,releaseState,Sys.modify,h]

theorem release_bound (fe : ℕ) (s : Sys) : (release fe s).bound = s.bound := by
  cases h : s.tunerPriv fe <;> simp [release,releaseState,Sys.modify,h]

/-- The instance of the frontend goes with its last count; the others stay as they are. -/
theorem mem_release {s : Sys} {fe i : ℕ} (h : s.tunerPriv fe = some i) (x : Instance) :
    x ∈ (release fe s).list ↔ (x ∈ s.list ∧ x.id ≠ i) ∨
      ∃ y ∈ s.list, y.id = i ∧ y.count ≠ 1 ∧ x = {y with count := y.count-1} := by
  simp only [release,h,releaseState,Sys.modify,List.mem_filter,List.mem_map]
  constructor
  · rintro ⟨⟨y,hy,rfl⟩,hf⟩
    by_cases hid : y.id = i
    · right
      rw [if_pos hid] at hf ⊢
      refine ⟨y,hy,hid,fun hc => ?_,rfl⟩
      simp [hid,hc] at hf
    · left
      rw [if_neg hid]
      exact ⟨hy,hid⟩
  · rintro (⟨hx,hid⟩ | ⟨y,hy,hid,hc,rfl⟩)
    · exact ⟨⟨x,hx,if_neg hid⟩,by simp [hid]⟩
    · refine ⟨⟨y,hy,if_pos hid⟩,?_⟩
      have hc' : y.count - 1 ≠ 0 := fun h0 => hc (by omega)
      simp [hc']

theorem listed_release {s : Sys} {e : Option ℕ} (hs : Counts s e) (fe j : ℕ) :
    Listed (release fe s) j ↔ Listed s j ∧ ¬ Last s fe j := by
  cases h : s.tunerPriv fe with
  | none =>
    rw [release_none h]
    exact ⟨fun hl => ⟨hl,fun hn => absurd (h.symm.trans hn.1) nofun⟩,fun hl => hl.1⟩
  | some i =>
    constructor
    · rintro ⟨x,hx,rfl⟩
      rcases (mem_release h x).mp hx with ⟨hx,hid⟩ | ⟨y,hy,hid,hc,rfl⟩
      · exact ⟨⟨x,hx,rfl⟩,fun hl => hid (Option.some.inj (hl.1.symm.trans h))⟩
      · refine ⟨⟨y,hy,rfl⟩,fun hl => ?_⟩
        obtain ⟨z,hz,hzid,hz1⟩ := hl.2
        exact hc ((hs.unique hy hz hzid.symm).trans hz1)
    · rintro ⟨⟨x,hx,rfl⟩,hl⟩
      by_cases hid : x.id = i
      · have hc : x.count ≠ 1 := fun hc => hl ⟨by rw [h,hid],x,hx,rfl,hc⟩
        exact ⟨_,(mem_release h _).mpr (Or.inr ⟨x,hx,hid,hc,rfl⟩),rfl⟩
      · exact ⟨x,(mem_release h x).mpr (Or.inl ⟨hx,hid⟩),rfl⟩

theorem counts_release {s : Sys} {e : Option ℕ} (hs : Counts s e) (fe : ℕ) :
    Counts (release fe s) e := by
  cases h : s.tunerPriv fe with
  | none => rwa [release_none h]
  | some i =>
    have hsplit (j : ℕ) := refs_split hs.sparse fe j
    refine ⟨?_,?_,?_,?_,?_,?_⟩
    · intro x hx
      rw [release_tunerPriv]
      rcases (mem_release h x).mp hx with ⟨hx,hid⟩ | ⟨y,hy,hid,hc,rfl⟩
      · have hne : ¬ s.tunerPriv fe = some x.id := by
          rw [h,Option.some.injEq]
          exact fun he => hid he.symm
        rw [hs.counted x hx,hsplit x.id,if_neg hne]
        omega
      · have hy' := hs.counted y hy
        rw [hsplit y.id,if_pos (h.trans (by rw [hid]))] at hy'
        simp only
        omega
    · intro x hx
      rcases (mem_release h x).mp hx with ⟨hx,hid⟩ | ⟨y,hy,hid,hc,rfl⟩
      · exact hs.used x hx
      · simp only
        omega
    · intro x hx
      rw [release_next]
      rcases (mem_release h x).mp hx with ⟨hx,hid⟩ | ⟨y,hy,hid,hc,rfl⟩
      · exact hs.fresh x hx
      · exact hs.fresh y hy
    · intro fe' j hj
      rw [release_tunerPriv] at hj
      have hne : fe' ≠ fe := by
        rintro rfl
        simp at hj
      have hj' := hj
      rw [Function.update_of_ne hne] at hj'
      refine (listed_release hs fe j).mpr ⟨hs.pointed fe' j hj',?_⟩
      rintro ⟨hfe,x,hx,rfl,h1⟩
      have h2 := hs.shared hne hfe hj' hx
      omega
    · rw [release_tunerPriv]
      exact hs.sparse.update fe none
    · intro x hx
      rcases (mem_release h x).mp hx with ⟨hx,hid⟩ | ⟨y,hy,hid,hc,rfl⟩
      · exact hs.configured x hx
      · exact hs.configured y hy

/-- The frontend of the attach holds no other pointer, so the instance handed out is
counted for it. -/
theorem counts_install {s : Sys} {fe k : ℕ} (hs : Counts s (some k)) (hk : Listed s k)
    (h : s.tunerPriv fe = none) : Counts (s.install fe k) none := by
  have hu : Function.update s.tunerPriv fe none = s.tunerPriv := by
    rw [Function.update_eq_self_iff,h]
  refine ⟨fun x hx => ?_,hs.used,hs.fresh,fun fe' i hi => ?_,hs.sparse.update _ _,hs.configured⟩
  · have hr := refs_update hs.sparse fe (some k) x.id
    rw [hu] at hr
    simp only [Sys.install,hr,hs.counted x hx]
    split_ifs <;> simp at *
  · by_cases hfe : fe' = fe
    · simp only [Sys.install,hfe,Function.update_self,Option.some.injEq] at hi
      rwa [← hi]
    · simp only [Sys.install,Function.update_of_ne hfe] at hi
      exact hs.pointed fe' i hi

/-- Some count is not the number of the frontends. -/
def Miscounted (s : Sys) : Prop := ∃ x ∈ s.list, x.count ≠ refs s.tunerPriv x.id

theorem Consistent.not_miscounted {s : Sys} (h : Consistent s) : ¬ Miscounted s :=
  fun ⟨x,hx,hc⟩ => hc (h.counted x hx)

theorem miscounted_of_extra {s : Sys} {k : ℕ} (hs : Counts s (some k)) (hk : Listed s k) :
    Miscounted s := by
  obtain ⟨x,hx,rfl⟩ := hk
  refine ⟨x,hx,?_⟩
  rw [hs.counted x hx,if_pos rfl]
  omega

/-- A failing attach keeps the instance that it was handed. -/
theorem miscounted_release {s : Sys} {k : ℕ} (hs : Counts s (some k)) (hk : Listed s k)
    (fe : ℕ) : Miscounted (release fe s) := by
  refine miscounted_of_extra (counts_release hs fe) ((listed_release hs fe k).mpr ⟨hk,?_⟩)
  rintro ⟨hfe,x,hx,rfl,h1⟩
  have hc := hs.counted x hx
  rw [if_pos rfl,refs_pos hs.sparse hfe] at hc
  omega

/-- A pointer that the attach overwrites stays counted. -/
theorem miscounted_install {s : Sys} {fe j k : ℕ} (hs : Counts s (some k))
    (h : s.tunerPriv fe = some j) : Miscounted (s.install fe k) := by
  obtain ⟨x,hx,rfl⟩ := hs.pointed fe j h
  refine ⟨x,hx,?_⟩
  have hc := hs.counted x hx
  rw [refs_pos hs.sparse h] at hc
  simp only [Sys.install,refs_update hs.sparse fe (some k)]
  split_ifs at hc ⊢ <;> omega

theorem release_list_ne {s : Sys} {fe j : ℕ} (hs : Counts s none) (h : s.tunerPriv fe = some j) :
    (release fe s).list ≠ s.list := by
  intro he
  obtain ⟨x,hx,rfl⟩ := hs.pointed fe j h
  have hc := hs.counted x hx
  have hc' := (counts_release hs fe).counted x (by rwa [he])
  rw [refs_pos hs.sparse h] at hc
  rw [release_tunerPriv] at hc'
  omega

structure Granted (s : Sys) (k : ℕ) (t : Sys) : Prop where
  counts : Counts t (some k)
  listed : Listed t k
  kept : ∀ i, Listed s i → Listed t i
  tunerPriv : t.tunerPriv = s.tunerPriv
  bound : t.bound = s.bound

theorem mxlFail_transferred (num ret : ℤ) : mxlFail (transferred num ret) = decide (ret ≠ num) := by
  by_cases h : ret = num <;> simp [mxlFail,transferred,Errno.eremoteio,h]

theorem granted_found {s : Sys} (hs : Counts s none) {x : Instance} (hx : x ∈ s.list) :
    Granted s x.id (s.modify x.id fun y => {y with count := y.count+1}) := by
  have hkept (i : ℕ) (hi : Listed s i) :
      Listed (s.modify x.id fun y => {y with count := y.count+1}) i := by
    obtain ⟨y,hy,rfl⟩ := hi
    exact ⟨_,List.mem_map_of_mem hy,by split_ifs <;> rfl⟩
  refine ⟨⟨?_,?_,?_,fun fe i hi => hkept i (hs.pointed fe i hi),hs.sparse,?_⟩,
    hkept x.id ⟨x,hx,rfl⟩,hkept,rfl,rfl⟩
  · intro y' hy'
    obtain ⟨y,hy,rfl⟩ := List.mem_map.mp hy'
    have hc := hs.counted y hy
    by_cases hid : y.id = x.id
    · simp only [Sys.modify,hid,if_true] at hc ⊢
      simpa using hc
    · have hne : ¬ some x.id = some y.id := fun he => hid (Option.some.inj he).symm
      simp only [Sys.modify,if_neg hid,if_neg hne]
      simpa using hc
  · intro y' hy'
    obtain ⟨y,hy,rfl⟩ := List.mem_map.mp hy'
    have hp := hs.pos hy
    split_ifs
    · simp only
      omega
    · omega
  · intro y' hy'
    obtain ⟨y,hy,rfl⟩ := List.mem_map.mp hy'
    split_ifs <;> exact hs.fresh y hy
  · intro y' hy'
    obtain ⟨y,hy,rfl⟩ := List.mem_map.mp hy'
    split_ifs <;> exact hs.configured y hy

def Sys.create (i2c : ℕ) (addr : Byte) (cfg : Config) (s : Sys) : Sys :=
  {s with next := s.next+1, list := s.list ++ [⟨s.next,i2c,addr,1,some cfg⟩]}

theorem granted_new {s : Sys} (hs : Counts s none) (i2c : ℕ) (addr : Byte) {cfg : Config}
    (hcfg : cfg.frontend.isSome) : Granted s s.next (s.create i2c addr cfg) := by
  have hkept (i : ℕ) (hi : Listed s i) : Listed (s.create i2c addr cfg) i := by
    obtain ⟨y,hy,rfl⟩ := hi
    exact ⟨y,List.mem_append_left _ hy,rfl⟩
  have hzero : refs s.tunerPriv s.next = 0 := by
    refine refs_eq_zero fun fe hfe => ?_
    obtain ⟨y,hy,hid⟩ := hs.pointed fe _ hfe
    exact absurd hid (Nat.ne_of_lt (hs.fresh y hy))
  have hmem {y : Instance} (hy : y ∈ (s.create i2c addr cfg).list) :
      y ∈ s.list ∨ y = ⟨s.next,i2c,addr,1,some cfg⟩ := by
    simpa [Sys.create] using hy
  refine ⟨⟨?_,?_,?_,fun fe i hi => hkept i (hs.pointed fe i hi),hs.sparse,?_⟩,
    ⟨_,List.mem_append_right _ (List.mem_singleton_self _),rfl⟩,hkept,rfl,rfl⟩
  · intro y hy
    rcases hmem hy with hy | rfl
    · have hne : ¬ some s.next = some y.id :=
        fun he => Nat.ne_of_lt (hs.fresh y hy) (Option.some.inj he).symm
      rw [if_neg hne]
      exact hs.counted y hy
    · simp [Sys.create,hzero]
  · intro y hy
    rcases hmem hy with hy | rfl
    · exact hs.used y hy
    · exact Int.one_ne_zero
  · intro y hy
    rcases hmem hy with hy | rfl
    · exact Nat.lt_succ_of_lt (hs.fresh y hy)
    · exact Nat.lt_succ_self _
  · intro y hy
    rcases hmem hy with hy | rfl
    · exact hs.configured y hy
    · exact hcfg

inductive Attached (s : Sys) (fe i2c : ℕ) (addr : Byte) (o : Reply) : Bool × Sys → Prop
  | empty (h : Answered s i2c addr o) : Attached s fe i2c addr o (false,release fe s)
  | installed {k : ℕ} {t : Sys} (h : Answered s i2c addr o) (hg : Granted s k t) :
      Attached s fe i2c addr o (true,t.install fe k)
  | failed {k : ℕ} {t : Sys} (h : ¬ Answered s i2c addr o) (hg : Granted s k t) :
      Attached s fe i2c addr o (false,release fe t)

theorem find_mem {s : Sys} {i2c : ℕ} {addr : Byte} {x : Instance} (h : s.find i2c addr = some x) :
    x ∈ s.list := List.mem_of_find?_eq_some h

theorem attach_granted {s u t : Sys} {n : ℤ} {i2c k : ℕ} {addr : Byte} {cfg : Config}
    {o : Reply} (fe : ℕ) (h : requestState i2c addr o.kzalloc s = (n,some k,u))
    (ht : (if n = 1 then u.modify k fun x => {x with config := some cfg} else u) = t) :
    attach fe i2c addr cfg o s =
      if (n = 1 → o.chipId = 2) ∧ o.softReset = 1 ∧ o.writeReg = 1 then (true,t.install fe k)
      else (false,release fe t) := by
  simp only [attach,h,ht,getChipId,softReset,writeReg,mxlFail_transferred,decide_eq_true_eq]
  by_cases hc : n = 1 ∧ o.chipId ≠ 2
  · rw [if_pos hc,if_neg fun hn => hc.2 (hn.1 hc.1)]
  · rw [if_neg hc]
    by_cases hr : o.softReset = 1
    · by_cases hw : o.writeReg = 1
      · rw [if_neg (not_not.mpr hr),if_neg (not_not.mpr hw),if_pos]
        exact ⟨fun hn => by_contra fun hn' => hc ⟨hn,hn'⟩,hr,hw⟩
      · rw [if_neg (not_not.mpr hr),if_pos hw,if_neg fun hn => hw hn.2.2]
    · rw [if_pos hr,if_neg fun hn => hr hn.2.1]

theorem attach_found {s : Sys} {i2c : ℕ} {addr : Byte} {x : Instance} (hs : Counts s none)
    (h : s.find i2c addr = some x) (fe : ℕ) (cfg : Config) (o : Reply) :
    Attached s fe i2c addr o (attach fe i2c addr cfg o s) := by
  have hp := hs.pos (find_mem h)
  have h0 : ¬ x.count + 1 = 0 := by omega
  have h1 : ¬ x.count + 1 = 1 := by omega
  have hreq : requestState i2c addr o.kzalloc s =
      (x.count+1,some x.id,s.modify x.id fun y => {y with count := y.count+1}) := by
    simp [requestState,h,h0]
  have ha : Answered s i2c addr o ↔ o.softReset = 1 ∧ o.writeReg = 1 := by simp [Answered,h]
  have hg := granted_found hs (find_mem h)
  rw [attach_granted fe hreq (if_neg h1)]
  split_ifs with hr
  · exact .installed (ha.mpr hr.2) hg
  · exact .failed (fun hn => hr ⟨fun he => absurd he h1,ha.mp hn⟩) hg

theorem modify_create {s : Sys} (hs : Counts s none) (i2c : ℕ) (addr : Byte) (cfg : Config) :
    ({s with next := s.next+1, list := s.list ++ [⟨s.next,i2c,addr,1,none⟩]} : Sys).modify s.next
      (fun x => {x with config := some cfg}) = s.create i2c addr cfg := by
  have hold : s.list.map (fun x => if x.id = s.next then {x with config := some cfg} else x) =
      s.list := by
    conv_rhs => rw [← List.map_id s.list]
    refine List.map_congr_left fun x hx => ?_
    rw [if_neg (Nat.ne_of_lt (hs.fresh x hx)),id]
  simp [Sys.modify,Sys.create,hold]

theorem attach_new {s : Sys} {i2c : ℕ} {addr : Byte} (hs : Counts s none)
    (h : s.find i2c addr = none) (fe : ℕ) {cfg : Config} (hcfg : cfg.frontend.isSome)
    (o : Reply) : Attached s fe i2c addr o (attach fe i2c addr cfg o s) := by
  have ha : Answered s i2c addr o ↔
      (o.kzalloc = true → o.chipId = 2 ∧ o.softReset = 1 ∧ o.writeReg = 1) := by
    simp [Answered,h]
  cases hk : o.kzalloc with
  | false =>
    have hout : Attached s fe i2c addr o _ :=
      .empty (ha.mpr fun hn => absurd (hk.symm.trans hn) Bool.false_ne_true)
    simpa [attach,requestState,h,hk] using hout
  | true =>
    have hreq : requestState i2c addr o.kzalloc s = (1,some s.next,
        {s with next := s.next+1, list := s.list ++ [⟨s.next,i2c,addr,1,none⟩]}) := by
      simp [requestState,h,hk]
    have hg := granted_new hs i2c addr hcfg
    rw [attach_granted fe hreq ((if_pos rfl).trans (modify_create hs i2c addr cfg))]
    split_ifs with hr
    · exact .installed (ha.mpr fun _ => ⟨hr.1 rfl,hr.2⟩) hg
    · exact .failed (fun hn => hr ⟨fun _ => (ha.mp hn hk).1,(ha.mp hn hk).2⟩) hg

theorem attach_cases {s : Sys} (hs : Counts s none) (fe i2c : ℕ) (addr : Byte) {cfg : Config}
    (hcfg : cfg.frontend.isSome) (o : Reply) :
    Attached s fe i2c addr o (attach fe i2c addr cfg o s) := by
  cases h : s.find i2c addr with
  | some x => exact attach_found hs h fe cfg o
  | none => exact attach_new hs h fe hcfg o

theorem probe_refused {c : Client} (h : c.frontend = none) (o : Reply) (s : Sys) :
    probe c o s = (-Errno.einval,s) := by
  cases hp : c.platformData with
  | none => simp [probe,hp]
  | some cfg =>
    have hf : cfg.frontend = none := by simpa [Client.frontend,hp] using h
    simp [probe,hp,hf]

theorem probe_attach {c : Client} {fe : ℕ} (h : c.frontend = some fe) (o : Reply) {s : Sys}
    (hs : Counts s none) : ∃ r, Attached s fe c.adapter (c.addr.setWidth 8) o r ∧
      probe c o s =
        if r.1 then (0,r.2.setClientdata c.name fe) else (-Errno.enodev,r.2) := by
  obtain ⟨cfg,hp,hf⟩ := Option.bind_eq_some_iff.mp h
  have hcfg : cfg.frontend.isSome := by rw [hf]; rfl
  refine ⟨_,attach_cases hs fe c.adapter (c.addr.setWidth 8) hcfg o,?_⟩
  simp [probe,hp,hf]

theorem step_probe {s : Sys} {c : Client} (h : Admitted s c) (o : Reply) :
    step s (.probe c o) = some (probe c o s).2 :=
  if_pos h

theorem counts_setClientdata {s : Sys} {e : Option ℕ} (hs : Counts s e) (client fe : ℕ) :
    Counts (s.setClientdata client fe) e :=
  ⟨hs.counted,hs.used,hs.fresh,hs.pointed,hs.sparse,hs.configured⟩

theorem inv_setClientdata {s : Sys} (hs : Inv s) (client fe : ℕ) :
    Inv (s.setClientdata client fe) := by
  refine ⟨counts_setClientdata hs.counts client fe,fun b hb i hi => ?_⟩
  rcases List.mem_cons.mp hb with rfl | hb
  · exact hs.counts.pointed fe i hi
  · exact hs.held b hb i hi

theorem inv_probe {s : Sys} (hs : Inv s) {c : Client} {o : Reply}
    (h : ∀ fe, c.frontend = some fe → s.tunerPriv fe = none ∧
      Answered s c.adapter (c.addr.setWidth 8) o) : Inv (probe c o s).2 := by
  cases hf : c.frontend with
  | none => rwa [probe_refused hf]
  | some fe =>
    obtain ⟨hn,ha⟩ := h fe hf
    obtain ⟨r,hr,hp⟩ := probe_attach hf o hs.counts
    rw [hp]
    cases hr with
    | empty => simpa [release_none hn] using hs
    | failed hna => exact absurd ha hna
    | @installed k t _ hg =>
      have hn' : t.tunerPriv fe = none := by rw [hg.tunerPriv,hn]
      rw [if_pos rfl]
      refine inv_setClientdata
        ⟨counts_install hg.counts hg.listed hn',fun b hb i hi => ?_⟩ c.name fe
      exact hg.kept i (hs.held b (hg.bound ▸ hb) i hi)

/-- A probe under the condition fails without an instance of its own. -/
theorem undone_probe {s : Sys} (hs : Inv s) {c : Client} {o : Reply}
    (h : ∀ fe, c.frontend = some fe → s.tunerPriv fe = none ∧
      Answered s c.adapter (c.addr.setWidth 8) o) (hneg : (probe c o s).1 < 0) :
    (probe c o s).2.list = s.list := by
  cases hf : c.frontend with
  | none => rw [probe_refused hf]
  | some fe =>
    obtain ⟨hn,ha⟩ := h fe hf
    obtain ⟨r,hr,hp⟩ := probe_attach hf o hs.counts
    rw [hp] at hneg ⊢
    cases hr with
    | empty => simp [release_none hn]
    | failed hna => exact absurd ha hna
    | installed =>
      rw [if_pos rfl] at hneg
      exact absurd hneg (lt_irrefl 0)

theorem unsound_probe {s : Sys} (hs : Inv s) {c : Client} {o : Reply} {fe : ℕ}
    (hf : c.frontend = some fe)
    (h : ¬ (s.tunerPriv fe = none ∧ Answered s c.adapter (c.addr.setWidth 8) o)) :
    ((probe c o s).1 < 0 ∧ (probe c o s).2.list ≠ s.list) ∨ Miscounted (probe c o s).2 := by
  obtain ⟨r,hr,hp⟩ := probe_attach hf o hs.counts
  rw [hp]
  cases hr with
  | empty ha =>
    left
    obtain ⟨j,hj⟩ := Option.ne_none_iff_exists'.mp fun hn => h ⟨hn,ha⟩
    have hneg : -Errno.enodev < 0 := by decide
    exact ⟨hneg,release_list_ne hs.counts hj⟩
  | failed _ hg =>
    right
    exact miscounted_release hg.counts hg.listed fe
  | @installed k t ha hg =>
    right
    rw [if_pos rfl]
    obtain ⟨j,hj⟩ := Option.ne_none_iff_exists'.mp fun hn => h ⟨hn,ha⟩
    have hj' : t.tunerPriv fe = some j := by rw [hg.tunerPriv,hj]
    obtain ⟨x,hx,hc⟩ := miscounted_install (k:=k) hg.counts hj'
    exact ⟨x,hx,hc⟩

theorem inv_release {s : Sys} (hs : Inv s) {fe : ℕ}
    (h : ∀ i, Last s fe i → ∀ b ∈ s.bound, b.clientdata ≠ some i) : Inv (release fe s) := by
  refine ⟨counts_release hs.counts fe,fun b hb i hi => ?_⟩
  rw [release_bound] at hb
  exact (listed_release hs.counts fe i).mpr ⟨hs.held b hb i hi,fun hl => h i hl b hb hi⟩

theorem unsound_release {s : Sys} (hs : Inv s) {fe i : ℕ} (hl : Last s fe i) {b : Bound}
    (hb : b ∈ s.bound) (hi : b.clientdata = some i) : ¬ Consistent (release fe s) := fun hc =>
  ((listed_release hs.counts fe i).mp (hc.held b ((release_bound fe s).symm ▸ hb) i hi)).2 hl

def Sys.unbind (n : ℕ) (s : Sys) : Sys := {s with bound := s.bound.filter (·.client != n)}

theorem inv_unbind {s : Sys} (hs : Inv s) (n : ℕ) : Inv (s.unbind n) :=
  ⟨⟨hs.counts.counted,hs.counts.used,hs.counts.fresh,hs.counts.pointed,hs.counts.sparse,
    hs.counts.configured⟩,fun b hb => hs.held b (List.mem_filter.mp hb).1⟩

theorem mem_unbind {s : Sys} {n : ℕ} {b : Bound} :
    b ∈ (s.unbind n).bound ↔ b ∈ s.bound ∧ b.client ≠ n := by
  simp [Sys.unbind]

theorem inv_step (s : Sys) (a : Action) (t : Sys) (hs : Inv s) (ha : Sound s a)
    (h : step s a = some t) : Inv t := by
  cases a with
  | probe c o =>
    obtain ⟨had,⟨⟩⟩ := Option.ite_none_right_eq_some.mp h
    exact inv_probe hs (ha had)
  | release fe =>
    obtain ⟨hin,⟨⟩⟩ := Option.ite_none_right_eq_some.mp h
    exact inv_release hs (ha hin)
  | remove n =>
    obtain ⟨b,hb,hr⟩ := Option.bind_eq_some_iff.mp h
    change remove b (s.unbind n) = some t at hr
    cases hd : b.clientdata with
    | none =>
      simp only [remove,hd,Option.some.injEq] at hr
      exact hr ▸ inv_unbind hs n
    | some state =>
      simp only [remove,hd] at hr
      obtain ⟨x,hx,hm⟩ := Option.bind_eq_some_iff.mp hr
      obtain ⟨fe,hfe,rfl⟩ := Option.map_eq_some_iff.mp hm
      refine inv_release (inv_unbind hs n) fun i hl b' hb' => ?_
      obtain ⟨hb',hne⟩ := mem_unbind.mp hb'
      exact ha b hb state hd x hx fe hfe i hl b' hb' hne

theorem undone_step (s : Sys) (a : Action) (hs : Inv s) (ha : Sound s a) : Undone s a := by
  cases a with
  | probe c o =>
    intro t ht hneg
    obtain ⟨had,⟨⟩⟩ := Option.ite_none_right_eq_some.mp ht
    exact undone_probe hs (ha had) hneg
  | release | remove => trivial

/-- A step outside the condition is taken, and shows. -/
theorem unsound_step (s : Sys) (a : Action) (hs : Inv s) (ha : ¬ Sound s a) :
    ¬ Undone s a ∨ ∃ t, step s a = some t ∧ ¬ Consistent t := by
  cases a with
  | probe c o =>
    simp only [Sound,Classical.not_imp,not_forall] at ha
    obtain ⟨had,fe,hf,hn⟩ := ha
    rcases unsound_probe hs hf hn with ⟨hneg,hne⟩ | hm
    · left
      exact fun hu => hne (hu _ (step_probe had o) hneg)
    · right
      exact ⟨_,step_probe had o,fun hc => hc.not_miscounted hm⟩
  | release fe =>
    simp only [Sound,Classical.not_imp,not_forall,not_not] at ha
    obtain ⟨hin,i,hl,b,hb,hi⟩ := ha
    exact Or.inr ⟨_,if_pos hin,unsound_release hs hl hb hi⟩
  | remove n =>
    simp only [Sound,Classical.not_imp,not_forall,not_not] at ha
    obtain ⟨b,hb,state,hd,x,hx,fe,hfe,i,hl,b',hb',hne,hi⟩ := ha
    right
    refine ⟨release fe (s.unbind n),?_,
      unsound_release (inv_unbind hs n) hl (mem_unbind.mpr ⟨hb',hne⟩) hi⟩
    change (s.client n).bind (fun b => remove b (s.unbind n)) = _
    have hx' : (s.unbind n).deref state = some x := hx
    simp [hb,remove,hd,hx',hfe]

theorem inv_begin : Inv Sys.begin :=
  ⟨⟨nofun,nofun,nofun,nofun,sparse_none,nofun⟩,nofun⟩

/-- Over every sequence of probes, releases and removes, the list stays consistent and
failed probes leave it alone exactly when all steps are sound. -/
theorem consistent_iff_sound (as : List Action) :
    (Always Consistent step Sys.begin as ∧ Along Undone step Sys.begin as) ↔
      Along Sound step Sys.begin as := by
  constructor
  · rintro ⟨h,hu⟩
    exact along_of_always_along unsound_step inv_step inv_begin h hu
  · intro h
    exact ⟨always_of_along inv_step (fun _ hs => hs.consistent) inv_begin h,
      along_of_along inv_step undone_step inv_begin h⟩

/-- An instance whose chip does not answer stays in the list with a count of one. -/
theorem failed_probe_listed :
    ¬ ∀ as, Always Consistent step Sys.begin as ∧ Along Undone step Sys.begin as := by
  intro h
  have hc := (h [.probe ⟨0,0,0x60,some ⟨some 0⟩⟩ ⟨true,0,1,1⟩]).1.2 _ (step_probe (by decide) _)
  have h1 := hc.counted ⟨0,0,0x60,1,some ⟨some 0⟩⟩ (by decide)
  rw [refs_eq_zero fun fe => ?_] at h1
  · exact absurd h1 (by decide)
  · change Function.update (fun _ => none) 0 none fe ≠ some 0
    rw [Function.update_eq_self]
    exact nofun

end TunerInstances
end AkbPcr20x
