import AkbPcr20x.Streaming

/-! Concurrent use of `priv->wbuf`. Any number of calls stage bytes and submit the
front of the buffer, one assignment a step. `akb_pcr20x_i2c_xfer` does so under
`i2c_mutex`, `akb_pcr20x_streaming_ctrl` under no lock of the driver. -/
namespace AkbPcr20x
namespace SharedBuffer

open Memory I2cXfer Streaming Transition

/-- What a call stages and submits at once. -/
inductive Job
  | i2c (t : Transaction)
  | streaming (on : Bool)

def control (on : Bool) : Control := if on then .on else .off

def Job.stores : Job → List Store
  | .i2c t => t.stores
  | .streaming on => (control on).stores

def Job.wlen : Job → ℕ
  | .i2c t => t.wlen
  | .streaming on => (control on).wlen

/-- The packet that the stores of a job put together. -/
def Job.packet : Job → List Byte
  | .i2c t => t.packet
  | .streaming on => (control on).packet

theorem Job.load_fill (j : Job) (wbuf : Mem Byte) :
    load (fill wbuf j.stores) 0 j.wlen = j.packet := by
  cases j with
  | i2c t => exact t.load_fill wbuf
  | streaming on => exact (control on).load_fill wbuf

/-- Where a call stands. In `staging` it has the listed stores before it; the messages
are those behind the current transaction. -/
inductive Pc
  | idle
  | waiting (msgs : List I2cMsg)
  | locked (msgs : List I2cMsg)
  | staging (j : Job) (todo : List Store) (msgs : List I2cMsg)
  | leaving

def Pc.inside : Pc → Bool
  | .locked _ => true
  | .staging (.i2c _) _ _ => true
  | .leaving => true
  | _ => false

/-- The buffer, the owner of `i2c_mutex`, the calls by thread and what was submitted. -/
structure Shared where
  wbuf : Mem Byte
  mutex : Option ℕ
  pc : ℕ → Pc
  sent : List (ℕ × Job × List Byte)

def Shared.go (s : Shared) (i : ℕ) (p : Pc) : Shared := {s with pc := Function.update s.pc i p}

/-- Steps of thread `i`. The lock may be interrupted and a transfer may fail. -/
inductive Action
  | xfer (i : ℕ) (msgs : List I2cMsg)
  | streaming (i : ℕ) (on : Bool)
  | lock (i : ℕ)
  | interrupt (i : ℕ)
  | next (i : ℕ)
  | store (i : ℕ)
  | submit (i : ℕ) (ok : Bool)
  | unlock (i : ℕ)

def enter : List I2cMsg → Pc
  | [] => .leaving
  | m::msgs =>
    match turn m msgs.head? with
    | .error _ => .leaving
    | .ok t => .staging (.i2c t) t.stores (msgs.drop (t.msgs.length - 1))

def leave (ok : Bool) (msgs : List I2cMsg) : Job → Pc
  | .i2c _ => if ok then .locked msgs else .leaving
  | .streaming _ => .idle

def step (s : Shared) : Action → Option Shared
  | .xfer i msgs =>
    match s.pc i with
    | .idle => some (s.go i (.waiting msgs))
    | _ => none
  | .streaming i on =>
    match s.pc i with
    | .idle => some (s.go i (.staging (.streaming on) (Job.streaming on).stores []))
    | _ => none
  | .lock i =>
    match s.pc i,s.mutex with
    | .waiting msgs,none => some {s.go i (.locked msgs) with mutex := some i}
    | _,_ => none
  | .interrupt i =>
    match s.pc i with
    | .waiting _ => some (s.go i .idle)
    | _ => none
  | .next i =>
    match s.pc i with
    | .locked msgs => some (s.go i (enter msgs))
    | _ => none
  | .store i =>
    match s.pc i with
    | .staging j (a::todo) msgs =>
      some {s.go i (.staging j todo msgs) with wbuf := a.apply s.wbuf}
    | _ => none
  | .submit i ok =>
    match s.pc i with
    | .staging j [] msgs =>
      some {s.go i (leave ok msgs j) with sent := s.sent ++ [(i,j,load s.wbuf 0 j.wlen)]}
    | _ => none
  | .unlock i =>
    match s.pc i with
    | .leaving => some {s.go i .idle with mutex := none}
    | _ => none

/-- What a step can do, by the place its thread stands at. -/
inductive Step (s : Shared) : Action → Shared → Prop
  | xfer {i msgs} (h : s.pc i = .idle) : Step s (.xfer i msgs) (s.go i (.waiting msgs))
  | streaming {i on} (h : s.pc i = .idle) :
      Step s (.streaming i on) (s.go i (.staging (.streaming on) (Job.streaming on).stores []))
  | lock {i msgs} (h : s.pc i = .waiting msgs) (hm : s.mutex = none) :
      Step s (.lock i) {s.go i (.locked msgs) with mutex := some i}
  | interrupt {i msgs} (h : s.pc i = .waiting msgs) : Step s (.interrupt i) (s.go i .idle)
  | next {i msgs} (h : s.pc i = .locked msgs) : Step s (.next i) (s.go i (enter msgs))
  | store {i j a todo msgs} (h : s.pc i = .staging j (a::todo) msgs) :
      Step s (.store i) {s.go i (.staging j todo msgs) with wbuf := a.apply s.wbuf}
  | submit {i ok j msgs} (h : s.pc i = .staging j [] msgs) :
      Step s (.submit i ok)
        {s.go i (leave ok msgs j) with sent := s.sent ++ [(i,j,load s.wbuf 0 j.wlen)]}
  | unlock {i} (h : s.pc i = .leaving) : Step s (.unlock i) {s.go i .idle with mutex := none}

theorem step_cases {s s' : Shared} {a : Action} (h : step s a = some s') : Step s a s' := by
  cases a with
  | xfer i msgs =>
    cases hi : s.pc i <;> simp only [step,hi,reduceCtorEq,Option.some.injEq] at h
    exact h ▸ .xfer hi
  | streaming i on =>
    cases hi : s.pc i <;> simp only [step,hi,reduceCtorEq,Option.some.injEq] at h
    exact h ▸ .streaming hi
  | lock i =>
    cases hi : s.pc i <;> cases hm : s.mutex <;>
      simp only [step,hi,hm,reduceCtorEq,Option.some.injEq] at h
    exact h ▸ .lock hi hm
  | interrupt i =>
    cases hi : s.pc i <;> simp only [step,hi,reduceCtorEq,Option.some.injEq] at h
    exact h ▸ .interrupt hi
  | next i =>
    cases hi : s.pc i <;> simp only [step,hi,reduceCtorEq,Option.some.injEq] at h
    exact h ▸ .next hi
  | store i =>
    rcases hi : s.pc i with _ | _ | _ | ⟨j,_ | ⟨a,todo⟩,msgs⟩ | _ <;>
      simp only [step,hi,reduceCtorEq,Option.some.injEq] at h
    exact h ▸ .store hi
  | submit i ok =>
    rcases hi : s.pc i with _ | _ | _ | ⟨j,_ | ⟨a,todo⟩,msgs⟩ | _ <;>
      simp only [step,hi,reduceCtorEq,Option.some.injEq] at h
    exact h ▸ .submit hi
  | unlock i =>
    cases hi : s.pc i <;> simp only [step,hi,reduceCtorEq,Option.some.injEq] at h
    exact h ▸ .unlock hi

def Shared.begin (wbuf : Mem Byte) : Shared := ⟨wbuf,none,fun _ => .idle,[]⟩

/-- Every submitted prefix is the packet its own call staged. -/
def Unmixed (s : Shared) : Prop := ∀ e ∈ s.sent, e.2.2 = e.2.1.packet

def Job.isStreaming : Job → Prop
  | .i2c _ => False
  | .streaming _ => True

/-- A store does not fall between the first store and the submission of another call,
where one of the two calls is `streamingCtrl`. -/
def Apart (s : Shared) : Action → Prop
  | .store i => ∀ j todo msgs, s.pc i = .staging j todo msgs →
      ∀ k j' todo' msgs', k ≠ i → s.pc k = .staging j' todo' msgs' →
        j.isStreaming ∨ j'.isStreaming → todo' = j'.stores
  | _ => True

structure Inv (s : Shared) : Prop where
  mutex : ∀ i, (s.pc i).inside = true → s.mutex = some i
  staged : ∀ i j todo msgs, s.pc i = .staging j todo msgs →
    load (fill s.wbuf todo) 0 j.wlen = j.packet
  unmixed : Unmixed s

theorem inv_begin (wbuf : Mem Byte) : Inv (Shared.begin wbuf) where
  mutex _ h := by cases h
  staged _ _ _ _ h := by cases h
  unmixed _ h := by cases h

theorem go_cases {s : Shared} {i k : ℕ} {p q : Pc} (h : (s.go i p).pc k = q) :
    (k = i ∧ p = q) ∨ (k ≠ i ∧ s.pc k = q) := by
  by_cases he : k = i
  · subst k
    simp only [Shared.go,Function.update_self] at h
    exact Or.inl ⟨rfl,h⟩
  · simp only [Shared.go,Function.update_of_ne he] at h
    exact Or.inr ⟨he,h⟩

theorem go_inside {s : Shared} {i k : ℕ} {p : Pc} (h : ((s.go i p).pc k).inside = true) :
    (k = i ∧ p.inside = true) ∨ (k ≠ i ∧ (s.pc k).inside = true) := by
  rcases go_cases (s:=s) (i:=i) (p:=p) (k:=k) rfl with ⟨he,hp⟩ | ⟨he,hp⟩
  · exact Or.inl ⟨he,by rwa [hp]⟩
  · exact Or.inr ⟨he,by rwa [hp]⟩

theorem inv_go {s : Shared} (hs : Inv s) {i : ℕ} {p : Pc}
    (hin : p.inside = true → (s.pc i).inside = true)
    (hst : ∀ j todo msgs, p = .staging j todo msgs → load (fill s.wbuf todo) 0 j.wlen = j.packet) :
    Inv (s.go i p) := by
  refine ⟨fun k hk => ?_,fun k j todo msgs hk => ?_,hs.unmixed⟩
  · rcases go_inside hk with ⟨rfl,hp⟩ | ⟨_,hp⟩
    · exact hs.mutex k (hin hp)
    · exact hs.mutex k hp
  · rcases go_cases hk with ⟨_,hp⟩ | ⟨_,hp⟩
    · exact hst j todo msgs hp
    · exact hs.staged k j todo msgs hp

theorem enter_staged {msgs : List I2cMsg} (wbuf : Mem Byte) {j : Job} {todo : List Store}
    {msgs' : List I2cMsg} (h : enter msgs = .staging j todo msgs') :
    load (fill wbuf todo) 0 j.wlen = j.packet := by
  cases msgs with
  | nil => cases h
  | cons m msgs =>
    rw [enter] at h
    cases ht : turn m msgs.head? with
    | error e => simp [ht] at h
    | ok t =>
      simp only [ht,Pc.staging.injEq] at h
      obtain ⟨rfl,rfl,_⟩ := h
      exact t.load_fill wbuf

theorem inside_unique {s : Shared} (hs : Inv s) {i k : ℕ} (hi : (s.pc i).inside = true)
    (hk : (s.pc k).inside = true) : k = i :=
  Option.some.inj ((hs.mutex k hk).symm.trans (hs.mutex i hi))

/-- A store of call `i` keeps what every other call has staged: that call has stored
nothing yet, or both would be inside the mutex. -/
theorem inv_store {s : Shared} (hs : Inv s) {i : ℕ} {j : Job} {a : Store} {todo : List Store}
    {msgs : List I2cMsg} (hi : s.pc i = .staging j (a::todo) msgs) (hc : Apart s (.store i)) :
    Inv {s.go i (.staging j todo msgs) with wbuf := a.apply s.wbuf} := by
  refine ⟨fun k hk => ?_,fun k j' todo' msgs' hk => ?_,hs.unmixed⟩
  · rcases go_inside hk with ⟨rfl,hp⟩ | ⟨_,hp⟩
    · refine hs.mutex k ?_
      rw [hi]
      cases j <;> exact hp
    · exact hs.mutex k hp
  · rcases go_cases hk with ⟨rfl,hp⟩ | ⟨he,hp⟩
    · obtain ⟨rfl,rfl,rfl⟩ := Pc.staging.inj hp
      exact hs.staged k j (a::todo) msgs hi
    · have hnew : todo' = j'.stores := by
        cases j with
        | streaming on => exact hc _ _ _ hi k j' todo' msgs' he hp (Or.inl trivial)
        | i2c t =>
          cases j' with
          | streaming on => exact hc _ _ _ hi k _ todo' msgs' he hp (Or.inr trivial)
          | i2c t' =>
            exact absurd (inside_unique hs (by rw [hi]; rfl) (by rw [hp]; rfl)) he
      rw [hnew]
      exact j'.load_fill _

theorem inv_submit {s : Shared} (hs : Inv s) {i : ℕ} {j : Job} {msgs : List I2cMsg} (ok : Bool)
    (hi : s.pc i = .staging j [] msgs) :
    Inv {s.go i (leave ok msgs j) with sent := s.sent ++ [(i,j,load s.wbuf 0 j.wlen)]} := by
  have hp : load s.wbuf 0 j.wlen = j.packet := hs.staged i j [] msgs hi
  have hg : Inv (s.go i (leave ok msgs j)) := by
    refine inv_go hs (fun hin => ?_) fun j' todo msgs' he => ?_
    · rw [hi]
      cases j with
      | i2c t => rfl
      | streaming on => cases hin
    · cases j <;> cases ok <;> cases he
  refine ⟨hg.mutex,hg.staged,fun e he => ?_⟩
  rcases List.mem_append.mp he with he | he
  · exact hs.unmixed e he
  · rw [List.mem_singleton.mp he]
    exact hp

theorem inv_lock {s : Shared} (hs : Inv s) {i : ℕ} (msgs : List I2cMsg) (hm : s.mutex = none) :
    Inv {s.go i (.locked msgs) with mutex := some i} := by
  refine ⟨fun k hk => ?_,fun k j todo msgs' hk => ?_,hs.unmixed⟩
  · rcases go_inside hk with ⟨rfl,_⟩ | ⟨_,hp⟩
    · rfl
    · exact absurd (hm.symm.trans (hs.mutex k hp)) nofun
  · rcases go_cases hk with ⟨_,hp⟩ | ⟨_,hp⟩
    · cases hp
    · exact hs.staged k j todo msgs' hp

theorem inv_unlock {s : Shared} (hs : Inv s) {i : ℕ} (hi : s.pc i = .leaving) :
    Inv {s.go i .idle with mutex := none} := by
  refine ⟨fun k hk => ?_,fun k j todo msgs hk => ?_,hs.unmixed⟩
  · rcases go_inside hk with ⟨_,hp⟩ | ⟨he,hp⟩
    · cases hp
    · exact absurd (inside_unique hs (by rw [hi]; rfl) hp) he
  · rcases go_cases hk with ⟨_,hp⟩ | ⟨_,hp⟩
    · cases hp
    · exact hs.staged k j todo msgs hp

theorem inv_step (s : Shared) (a : Action) (s' : Shared) (hs : Inv s) (hc : Apart s a)
    (h : step s a = some s') : Inv s' := by
  cases step_cases h with
  | xfer hi => exact inv_go hs nofun nofun
  | streaming hi =>
    refine inv_go hs nofun fun j todo msgs he => ?_
    obtain ⟨rfl,rfl,_⟩ := Pc.staging.inj he
    exact Job.load_fill _ _
  | lock hi hm => exact inv_lock hs _ hm
  | interrupt hi => exact inv_go hs nofun nofun
  | next hi =>
    exact inv_go hs (fun _ => by rw [hi]; rfl) fun j todo msgs he => enter_staged s.wbuf he
  | store hi => exact inv_store hs hi hc
  | submit hi => exact inv_submit hs _ hi
  | unlock hi => exact inv_unlock hs hi

/-- In every run whose stores stay apart as `Apart` says, every state reached has
submitted only packets that their own calls staged. -/
theorem unmixed_of_apart (wbuf : Mem Byte) {as : List Action}
    (hc : Along Apart step (Shared.begin wbuf) as) :
    Always Unmixed step (Shared.begin wbuf) as :=
  always_of_along inv_step (fun _ hs => hs.unmixed) (inv_begin wbuf) hc

def Action.thread : Action → ℕ
  | .xfer i _ | .streaming i _ | .lock i | .interrupt i | .next i | .store i | .submit i _
  | .unlock i => i

theorem step_pc {s s' : Shared} {a : Action} (h : step s a = some s') :
    ∃ p, s'.pc = Function.update s.pc a.thread p := by
  cases step_cases h <;> exact ⟨_,rfl⟩

instance : DecidablePred Job.isStreaming
  | .i2c _ => .isFalse id
  | .streaming _ => .isTrue trivial

/-- A call at `q` has a packet half staged that a store of a call at `p` would spoil. -/
def clash (p q : Pc) : Bool :=
  match p,q with
  | .staging j _ _,.staging j' todo' _ => (j.isStreaming ∨ j'.isStreaming) ∧ todo' ≠ j'.stores
  | _,_ => false

def ApartBelow (n : ℕ) (s : Shared) (a : Action) : Prop :=
  a.thread < n ∧ match a with
    | .store i => ∀ k < n, k ≠ i → clash (s.pc i) (s.pc k) = false
    | _ => True

instance (n : ℕ) (s : Shared) (a : Action) : Decidable (ApartBelow n s a) := by
  unfold ApartBelow
  cases a <;> infer_instance

theorem apart_of_below (n : ℕ) {s : Shared} {as : List Action} (hs : ∀ k, n ≤ k → s.pc k = .idle)
    (hc : Along (ApartBelow n) step s as) : Along Apart step s as := by
  refine along_of_along (I:=fun s => ∀ k, n ≤ k → s.pc k = .idle) (fun s a t hs hc ht k hk => ?_)
    (fun s a hs hc => ?_) hs hc
  · obtain ⟨p,hp⟩ := step_pc ht
    have hlt := hc.1
    rw [hp,Function.update_of_ne (by omega)]
    exact hs k hk
  · cases a with
    | store i =>
      intro j todo msgs hi k j' todo' msgs' hne hk hst
      have hkn : k < n := by
        by_contra hge
        rw [hs k (not_lt.mp hge)] at hk
        cases hk
      have hcl := hc.2 k hkn hne
      rw [hi,hk] at hcl
      by_contra htodo
      simp [clash,hst,htodo] at hcl
    | _ => trivial

def registerWrite : I2cMsg := ⟨0x10,0,[0x03,0x00],by decide⟩

/-- Three calls at once. The stream start is called while thread 0 stages its first packet
and stores its own between the two packets of thread 0, which keeps the mutex; thread 2 waits
for the mutex all the time. -/
def overlapping : List Action :=
  [.xfer 0 [registerWrite,registerWrite],.lock 0,.next 0,.store 0,.store 0,.streaming 1 true,
    .xfer 2 [registerWrite],.store 0,.store 0,.store 0,.submit 0 true,.store 1,.store 1,.next 0,
    .store 1,.submit 1 true,.store 0,.store 0,.store 0,.store 0,.store 0,.submit 0 true,.next 0,
    .unlock 0,.lock 2,.next 2,.store 2,.store 2,.store 2,.store 2,.store 2,.submit 2 true]

theorem unmixed_of_apart_sample :
    Always Unmixed step (Shared.begin fun _ => 0) overlapping ∧
      (run step (Shared.begin fun _ => 0) overlapping).map (fun s => s.sent.map fun e => (e.1,e.2.2)) =
        some [(0,[0x61,0x10,0x02,0x03,0x00]),(1,[0x50,0x58,0x20]),(0,[0x61,0x10,0x02,0x03,0x00]),
          (2,[0x61,0x10,0x02,0x03,0x00])] :=
  ⟨unmixed_of_apart _ (apart_of_below 3 (fun _ _ => rfl) (by decide)),by decide⟩

/-- A stream start between the last store and the submission of a register write: the
bulk endpoint gets `50 58 20 03 00` instead of `61 10 02 03 00`. -/
theorem mixed_sample :
    ∃ s, Exec step (Shared.begin fun _ => 0)
        [.xfer 0 [registerWrite],.lock 0,.next 0,.store 0,.store 0,.store 0,.store 0,.store 0,
          .streaming 1 true,.store 1,.store 1,.store 1,.submit 0 true] s ∧
      s.sent.map (fun e => (e.1,e.2.2,e.2.1.packet)) =
        [(0,[0x50,0x58,0x20,0x03,0x00],[0x61,0x10,0x02,0x03,0x00])] ∧ ¬ Unmixed s := by
  have hr : (run step (Shared.begin fun _ => 0)
      [.xfer 0 [registerWrite],.lock 0,.next 0,.store 0,.store 0,.store 0,.store 0,.store 0,
        .streaming 1 true,.store 1,.store 1,.store 1,.submit 0 true]).map
        (fun s => s.sent.map fun e => (e.1,e.2.2,e.2.1.packet)) =
      some [(0,[0x50,0x58,0x20,0x03,0x00],[0x61,0x10,0x02,0x03,0x00])] := by decide
  obtain ⟨s,hs,hd⟩ := Option.map_eq_some_iff.mp hr
  refine ⟨s,exec_of_run hs,hd,fun hu => ?_⟩
  obtain ⟨e,he,hd'⟩ := List.mem_map.mp (hd ▸ List.mem_singleton_self _)
  simp only [Prod.mk.injEq] at hd'
  have hn := hu e he
  rw [hd'.2.1,hd'.2.2] at hn
  revert hn
  decide

end SharedBuffer
end AkbPcr20x
