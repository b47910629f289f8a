import AkbPcr20x.Frontend

/-! The operations of both frontends by any number of threads. A call to tune writes its
registers one by one and then goes on to the saved operation, all of it under `mutex_fe`, which
`akb_pcr20x_ts_bus_control` takes as well. A register write that no demodulator acknowledged is
reported as done, as its packet has no answer. -/
namespace AkbPcr20x
namespace TsBus

open Frontend Transition

variable {ω : Type}

/-- A register of one of the demodulators, and its value. -/
structure RegWrite where
  demod : Fe
  reg : Byte
  val : Byte
  deriving DecidableEq

/-- The writes in front of the saved operation. The registers 0x0e and 0x0f of the ISDB-T
demodulator switch the bus over. -/
def table : Fe → List RegWrite
  | .s => [⟨.t,0x0e,0x77⟩,⟨.t,0x0f,0x77⟩,⟨.s,0x06,0x40⟩,⟨.s,0x07,0x11⟩,⟨.s,0x08,0x11⟩,⟨.s,0x85,0x7a⟩,
      ⟨.s,0x8e,0x26⟩,⟨.s,0xa3,0xf7⟩]
  | .t => [⟨.t,0x0e,0x11⟩,⟨.t,0x0f,0x11⟩,⟨.t,0x71,0x20⟩,⟨.t,0x76,0x08⟩]

def addr (env : Env ω) : Fe → Byte
  | .s => env.demodS
  | .t => env.demodT

def writeAll (env : Env ω) : List RegWrite → ω → ℤ × ω
  | [], w => (0,w)
  | x::xs, w =>
    let r := env.i2cTransfer (addr env x.demod) x.reg x.val w
    if r.1 < 0 then r else writeAll env xs r.2

def saved (p : Priv ω) : Fe → Option (ω → ℤ × ω)
  | .s => p.setFrontendS
  | .t => p.setFrontendT

def setFrontend (env : Env ω) : Fe → Fe → Priv ω → ω → ℤ × ω
  | .s => setFrontendS env
  | .t => setFrontendT env

/-- A call of one of the operations, which the attach has set. -/
inductive Op
  | acquire (fe : Fe)
  | release (fe : Fe)
  | tune (fe : Fe)

/-- Where a thread stands: in front of the lock, behind it, in front of the listed writes or,
without any, of the saved operation, and in front of the unlock. -/
inductive Pc
  | idle
  | waiting (op : Op)
  | locked (op : Op)
  | writing (fe : Fe) (todo : List RegWrite)
  | leaving

def Pc.inside : Pc → Bool
  | .idle => false
  | .waiting _ => false
  | _ => true

abbrev Regs := Fe → Byte → Byte

def setReg (regs : Regs) (d : Fe) (r v : Byte) : Regs :=
  Function.update regs d (Function.update (regs d) r v)

/-- What became of a write. A lost one is reported as done, a failed one is not. -/
inductive Fate
  | taken
  | lost
  | failed
  deriving DecidableEq

/-- The owner of `mutex_fe`, the threads, the driver and the registers of the demodulators. The
list of the writes and the registers that the last call found behind the lock are read by no
step. -/
structure Shared where
  mutex : Option ℕ
  pc : ℕ → Pc
  priv : Priv Regs
  regs : Regs
  log : List (ℕ × RegWrite × Fate)
  found : Regs

def Shared.go (s : Shared) (i : ℕ) (p : Pc) : Shared := {s with pc := Function.update s.pc i p}

/-- Steps of thread `i`, and a write of the demodulator driver without `mutex_fe`, to a register
of its own. A write that fails leaves any value behind, and so does the saved operation in all
the registers; a write that is lost leaves them as they are. -/
inductive Action
  | call (i : ℕ) (op : Op)
  | lock (i : ℕ)
  | enter (i : ℕ)
  | write (i : ℕ)
  | lose (i : ℕ)
  | fail (i : ℕ) (v : Byte)
  | saved (i : ℕ) (regs : Regs)
  | unlock (i : ℕ)
  | other (d : Fe) (r v : Byte)

def Shares (d : Fe) (r : Byte) : Prop := ∃ x ∈ table .s ++ table .t, x.demod = d ∧ x.reg = r

instance (d : Fe) (r : Byte) : Decidable (Shares d r) := List.decidableBEx _ _

def Shared.enter (s : Shared) (i : ℕ) : Op → Shared
  | .acquire fe => {s.go i .leaving with priv := (tsBusControl fe true s.priv).2}
  | .release fe => {s.go i .leaving with priv := (tsBusControl fe false s.priv).2}
  | .tune fe =>
    if s.priv.activeFe ≠ none ∧ s.priv.activeFe ≠ some fe then s.go i .leaving
    else {s.go i (.writing fe (table fe)) with found := s.regs}

def step (s : Shared) : Action → Option Shared
  | .call i op =>
    match s.pc i with
    | .idle => some (s.go i (.waiting op))
    | _ => none
  | .lock i =>
    match s.pc i,s.mutex with
    | .waiting op,none => some {s.go i (.locked op) with mutex := some i}
    | _,_ => none
  | .enter i =>
    match s.pc i with
    | .locked op => some (s.enter i op)
    | _ => none
  | .write i =>
    match s.pc i with
    | .writing fe (x::todo) =>
      some {s.go i (.writing fe todo) with regs := setReg s.regs x.demod x.reg x.val
                                           log := s.log ++ [(i,x,.taken)]}
    | _ => none
  | .lose i =>
    match s.pc i with
    | .writing fe (x::todo) => some {s.go i (.writing fe todo) with log := s.log ++ [(i,x,.lost)]}
    | _ => none
  | .fail i v =>
    match s.pc i with
    | .writing _ (x::_) =>
      some {s.go i .leaving with regs := setReg s.regs x.demod x.reg v
                                 log := s.log ++ [(i,x,.failed)]}
    | _ => none
  | .saved i regs =>
    match s.pc i with
    | .writing _ [] => some {s.go i .leaving with regs := regs}
    | _ => none
  | .unlock i =>
    match s.pc i with
    | .leaving => some {s.go i .idle with mutex := none}
    | _ => none
  | .other d r v => if Shares d r then none else some {s with regs := setReg s.regs d r v}

inductive Step (s : Shared) : Action → Shared → Prop
  | call {i op} (h : s.pc i = .idle) : Step s (.call i op) (s.go i (.waiting op))
  | lock {i op} (h : s.pc i = .waiting op) (hm : s.mutex = none) :
      Step s (.lock i) {s.go i (.locked op) with mutex := some i}
  | enter {i op} (h : s.pc i = .locked op) : Step s (.enter i) (s.enter i op)
  | write {i fe x todo} (h : s.pc i = .writing fe (x::todo)) :
      Step s (.write i) {s.go i (.writing fe todo) with regs := setReg s.regs x.demod x.reg x.val
                                                        log := s.log ++ [(i,x,.taken)]}
  | lose {i fe x todo} (h : s.pc i = .writing fe (x::todo)) :
      Step s (.lose i) {s.go i (.writing fe todo) with log := s.log ++ [(i,x,.lost)]}
  | fail {i v fe x todo} (h : s.pc i = .writing fe (x::todo)) :
      Step s (.fail i v) {s.go i .leaving with regs := setReg s.regs x.demod x.reg v
                                               log := s.log ++ [(i,x,.failed)]}
  | saved {i regs fe} (h : s.pc i = .writing fe []) :
      Step s (.saved i regs) {s.go i .leaving with regs := regs}
  | unlock {i} (h : s.pc i = .leaving) : Step s (.unlock i) {s.go i .idle with mutex := none}
  | other {d r v} (h : ¬ Shares d r) : Step s (.other d r v) {s with regs := setReg s.regs d r v}

theorem step_cases {s s' : Shared} {a : Action} (h : step s a = some s') : Step s a s' := by
  cases a with
  | call i op =>
    cases hi : s.pc i <;> simp only [step,hi,reduceCtorEq,Option.some.injEq] at h
    exact h ▸ .call hi
  | lock i =>
    cases hi : s.pc i <;> cases hm : s.mutex <;>
      simp only [step,hi,hm,reduceCtorEq,Option.some.injEq] at h
    exact h ▸ .lock hi hm
  | enter i =>
    cases hi : s.pc i <;> simp only [step,hi,reduceCtorEq,Option.some.injEq] at h
    exact h ▸ .enter hi
  | write i =>
    rcases hi : s.pc i with _ | _ | _ | ⟨fe,_ | ⟨x,todo⟩⟩ | _ <;>
      simp only [step,hi,reduceCtorEq,Option.some.injEq] at h
    exact h ▸ .write hi
  | lose i =>
    rcases hi : s.pc i with _ | _ | _ | ⟨fe,_ | ⟨x,todo⟩⟩ | _ <;>
      simp only [step,hi,reduceCtorEq,Option.some.injEq] at h
    exact h ▸ .lose hi
  | fail i v =>
    rcases hi : s.pc i with _ | _ | _ | ⟨fe,_ | ⟨x,todo⟩⟩ | _ <;>
      simp only [step,hi,reduceCtorEq,Option.some.injEq] at h
    exact h ▸ .fail hi
  | saved i regs =>
    rcases hi : s.pc i with _ | _ | _ | ⟨fe,_ | ⟨x,todo⟩⟩ | _ <;>
      simp only [step,hi,reduceCtorEq,Option.some.injEq] at h
    exact h ▸ .saved hi
  | unlock i =>
    cases hi : s.pc i <;> simp only [step,hi,reduceCtorEq,Option.some.injEq] at h
    exact h ▸ .unlock hi
  | other d r v =>
    simp only [step,Option.ite_none_left_eq_some,Option.some.injEq] at h
    exact h.2 ▸ .other h.1

def Shared.begin (p : Priv Regs) (regs : Regs) : Shared := ⟨none,fun _ => .idle,p,regs,[],regs⟩

/-- The writes of a call, which ends with the first one that fails. -/
structure Session where
  thread : ℕ
  fe : Fe
  fates : List Fate
  bound : fates.length ≤ (table fe).length
  ends : .failed ∉ fates.dropLast

def Session.writes (c : Session) : List (ℕ × RegWrite × Fate) :=
  ((table c.fe).zip c.fates).map fun e => (c.thread,e)

/-- The call has its whole table behind it, or a write that failed. -/
def Session.Over (c : Session) : Prop :=
  c.fates.length = (table c.fe).length ∨ .failed ∈ c.fates

/-- Calls one after the other, each with the first writes of its own table, and all of them over. -/
def Complete (log : List (ℕ × RegWrite × Fate)) : Prop :=
  ∃ cs : List Session, log = cs.flatMap Session.writes ∧ ∀ c ∈ cs, c.Over

/-- The same with a last call that may be under way. -/
def Whole (log : List (ℕ × RegWrite × Fate)) : Prop :=
  ∃ cs : List Session, log = cs.flatMap Session.writes ∧ ∀ c ∈ cs.dropLast, c.Over

def logged (i : ℕ) (xs : List RegWrite) (fates : List Fate) : List (ℕ × RegWrite × Fate) :=
  (xs.zip fates).map fun e => (i,e)

/-- Behind some writes of a call, the registers that took one hold its value, the others what the
call found. -/
def After (s : Shared) (xs : List RegWrite) (fates : List Fate) : Prop :=
  ∀ e ∈ xs.zip fates, s.regs e.1.demod e.1.reg =
    if e.2 = .taken then e.1.val else s.found e.1.demod e.1.reg

/-- The end of the log and the registers, behind the first writes of a call. -/
structure Sent (s : Shared) (i : ℕ) (xs : List RegWrite) (fates : List Fate) : Prop where
  all : fates.length = xs.length
  reported : .failed ∉ fates
  after : After s xs fates
  log : ∃ pre, Complete pre ∧ s.log = pre ++ logged i xs fates

/-- A call has its first writes behind it, nobody else writes, and the bus is not the other
frontend's. -/
structure Written (s : Shared) (i : ℕ) (fe : Fe) (todo : List RegWrite) : Prop where
  sent : ∃ sent fates, table fe = sent ++ todo ∧ Sent s i sent fates
  untouched : ∀ x ∈ todo, s.regs x.demod x.reg = s.found x.demod x.reg
  active : s.priv.activeFe = none ∨ s.priv.activeFe = some fe

structure Inv (s : Shared) : Prop where
  mutex : ∀ i, (s.pc i).inside = true → s.mutex = some i
  owner : ∀ i, s.mutex = some i → (s.pc i).inside = true
  written : ∀ i fe todo, s.pc i = .writing fe todo → Written s i fe todo
  complete : (∀ i fe todo, s.pc i ≠ .writing fe todo) → Complete s.log

theorem inv_begin (p : Priv Regs) (regs : Regs) : Inv (Shared.begin p regs) where
  mutex _ h := by cases h
  owner _ h := by cases h
  written _ _ _ h := by cases h
  complete _ := ⟨[],rfl,fun _ hc => absurd hc List.not_mem_nil⟩

theorem logged_concat {xs : List RegWrite} {fates : List Fate} (h : fates.length = xs.length) (i : ℕ)
    (x : RegWrite) (f : Fate) :
    logged i (xs ++ [x]) (fates ++ [f]) = logged i xs fates ++ [(i,x,f)] := by
  rw [logged,List.zip_append h.symm,List.map_append]
  rfl

theorem session_exists (i : ℕ) {fe : Fe} {sent todo : List RegWrite} {fates : List Fate}
    (ht : table fe = sent ++ todo) (hl : fates.length = sent.length)
    (he : .failed ∉ fates.dropLast) :
    ∃ c : Session, c.fe = fe ∧ c.fates = fates ∧ c.writes = logged i sent fates := by
  have hb : fates.length ≤ (table fe).length := by
    rw [ht,List.length_append,hl]
    exact Nat.le_add_right _ _
  have hz : (table fe).zip fates = sent.zip fates := by
    have hh : (sent ++ todo).zip (fates ++ []) = sent.zip fates ++ todo.zip [] :=
      List.zip_append hl.symm
    rw [List.append_nil,List.zip_nil_right,List.append_nil] at hh
    rw [ht,hh]
  refine ⟨⟨i,fe,fates,hb,he⟩,rfl,rfl,?_⟩
  rw [Session.writes,hz]
  rfl

theorem Complete.append {pre : List (ℕ × RegWrite × Fate)} (h : Complete pre) {c : Session}
    (hc : c.Over) : Complete (pre ++ c.writes) := by
  obtain ⟨cs,rfl,ho⟩ := h
  refine ⟨cs ++ [c],?_,fun c' hm => ?_⟩
  · rw [List.flatMap_append,List.flatMap_singleton]
  · rcases List.mem_append.mp hm with hm | hm
    · exact ho c' hm
    · rwa [List.mem_singleton.mp hm]

theorem Complete.whole {pre : List (ℕ × RegWrite × Fate)} (h : Complete pre) (c : Session) :
    Whole (pre ++ c.writes) := by
  obtain ⟨cs,rfl,ho⟩ := h
  refine ⟨cs ++ [c],?_,?_⟩
  · rw [List.flatMap_append,List.flatMap_singleton]
  · rwa [List.dropLast_concat]

theorem table_apart (fe : Fe) :
    (table fe).Pairwise fun x y => ¬ (x.demod = y.demod ∧ x.reg = y.reg) := by
  cases fe <;> decide

theorem setReg_self (regs : Regs) (d : Fe) (r v : Byte) : setReg regs d r v d r = v := by
  simp [setReg]

theorem setReg_of_ne (regs : Regs) {d d' : Fe} {r r' : Byte} (v : Byte)
    (h : ¬ (d' = d ∧ r' = r)) : setReg regs d r v d' r' = regs d' r' := by
  by_cases hd : d' = d
  · subst hd
    have hr : r' ≠ r := fun he => h ⟨rfl,he⟩
    simp [setReg,hr]
  · rw [setReg,Function.update_of_ne hd]

/-- The next write of a call, taken or lost, keeps the ones before it. -/
theorem Written.next {s s' : Shared} {i : ℕ} {fe : Fe} {x : RegWrite} {todo : List RegWrite} {f : Fate}
    (h : Written s i fe (x::todo)) (hf : f ≠ .failed)
    (hx : s'.regs x.demod x.reg = if f = .taken then x.val else s.found x.demod x.reg)
    (ho : ∀ y : RegWrite, ¬ (y.demod = x.demod ∧ y.reg = x.reg) →
      s'.regs y.demod y.reg = s.regs y.demod y.reg)
    (hl : s'.log = s.log ++ [(i,x,f)]) (hp : s'.priv = s.priv) (hfound : s'.found = s.found) :
    Written s' i fe todo := by
  obtain ⟨sent,fates,ht,hall,hrep,hafter,pre,hw,hlog⟩ := h.sent
  have ht' : table fe = (sent ++ [x]) ++ todo := by rw [ht,List.append_assoc,List.singleton_append]
  have hapart := table_apart fe
  rw [ht',List.append_assoc,List.pairwise_append] at hapart
  refine ⟨⟨sent ++ [x],fates ++ [f],ht',?_,?_,?_,pre,hw,?_⟩,fun y hy => ?_,hp ▸ h.active⟩
  · rw [List.length_append,List.length_append,hall,List.length_singleton,List.length_singleton]
  · rw [List.mem_append,List.mem_singleton]
    exact not_or.mpr ⟨hrep,hf.symm⟩
  · rw [After,List.zip_append hall.symm,hfound]
    intro e he
    rcases List.mem_append.mp he with he | he
    · rw [ho e.1 (hapart.2.2 e.1 (List.of_mem_zip he).1 x (by simp))]
      exact hafter e he
    · rw [List.mem_singleton.mp he]
      exact hx
  · rw [hl,hlog,logged_concat hall,List.append_assoc]
  · have hne := (List.pairwise_cons.mp hapart.2.1).1 y hy
    rw [ho y fun he => hne ⟨he.1.symm,he.2.symm⟩,hfound]
    exact h.untouched y (List.mem_cons_of_mem x hy)

/-- A write that fails ends its call. -/
theorem Written.failed {s : Shared} {i : ℕ} {fe : Fe} {x : RegWrite} {todo : List RegWrite}
    (h : Written s i fe (x::todo)) : Complete (s.log ++ [(i,x,.failed)]) := by
  obtain ⟨sent,fates,ht,hall,hrep,_,pre,hw,hlog⟩ := h.sent
  have ht' : table fe = (sent ++ [x]) ++ todo := by rw [ht,List.append_assoc,List.singleton_append]
  have hl : (fates ++ [Fate.failed]).length = (sent ++ [x]).length := by
    rw [List.length_append,List.length_append,hall,List.length_singleton,List.length_singleton]
  obtain ⟨c,_,hf,hc⟩ := session_exists i ht' hl (by rwa [List.dropLast_concat])
  have ho : c.Over := Or.inr (by rw [hf]; exact List.mem_append_right _ (List.mem_singleton_self _))
  have hh := hw.append ho
  rwa [hc,logged_concat hall,← List.append_assoc,← hlog] at hh

theorem Written.session {s : Shared} {i : ℕ} {fe : Fe} {todo : List RegWrite}
    (h : Written s i fe todo) : ∃ pre c, Complete pre ∧ s.log = pre ++ Session.writes c ∧
      (todo = [] → c.Over) := by
  obtain ⟨sent,fates,ht,hall,hrep,_,pre,hw,hlog⟩ := h.sent
  obtain ⟨c,hfe,hf,hc⟩ := session_exists i ht hall fun hm => hrep (List.mem_of_mem_dropLast hm)
  refine ⟨pre,c,hw,hc ▸ hlog,fun he => Or.inl ?_⟩
  rw [hfe,hf,hall,ht,he,List.append_nil]

theorem go_cases {pc : ℕ → Pc} {i k : ℕ} {p q : Pc} (h : Function.update pc i p k = q) :
    (k = i ∧ p = q) ∨ (k ≠ i ∧ pc k = q) := by
  by_cases he : k = i
  · subst k
    rw [Function.update_self] at h
    exact Or.inl ⟨rfl,h⟩
  · rw [Function.update_of_ne he] at h
    exact Or.inr ⟨he,h⟩

theorem inside_unique {s : Shared} (hs : Inv s) {i k : ℕ} (hi : (s.pc i).inside = true)
    (hk : (s.pc k).inside = true) : k = i :=
  Option.some.inj ((hs.mutex k hk).symm.trans (hs.mutex i hi))

theorem Inv.complete_of_inside {s : Shared} (hs : Inv s) {i : ℕ} (hi : (s.pc i).inside = true)
    (hw : ∀ fe todo, s.pc i ≠ .writing fe todo) : Complete s.log := by
  refine hs.complete fun k fe todo hk => ?_
  obtain rfl := inside_unique hs hi (by rw [hk]; rfl : (s.pc k).inside = true)
  exact hw fe todo hk

theorem Inv.whole {s : Shared} (hs : Inv s) : Whole s.log := by
  by_cases hw : ∀ i fe todo, s.pc i ≠ .writing fe todo
  · obtain ⟨cs,hl,ho⟩ := hs.complete hw
    exact ⟨cs,hl,fun c hc => ho c (List.mem_of_mem_dropLast hc)⟩
  · obtain ⟨i,fe,todo,hi⟩ : ∃ i fe todo, s.pc i = .writing fe todo := by
      by_contra hn
      exact hw fun i fe todo hi => hn ⟨i,fe,todo,hi⟩
    obtain ⟨pre,c,hp,hl,_⟩ := (hs.written i fe todo hi).session
    exact hl ▸ hp.whole c

/-- A step of the thread inside the mutex: the others have nothing there to be disturbed. -/
theorem inv_inside {s s' : Shared} (hs : Inv s) {i : ℕ} {p : Pc} (hi : (s.pc i).inside = true)
    (hpc : s'.pc = Function.update s.pc i p) (hm : s'.mutex = if p.inside then s.mutex else none)
    (hw : ∀ fe todo, p = .writing fe todo → Written s' i fe todo)
    (hl : (∀ fe todo, p ≠ .writing fe todo) → Complete s'.log) : Inv s' := by
  refine ⟨fun k hk => ?_,fun k hk => ?_,fun k fe todo hk => ?_,fun hn => hl fun fe todo hp => ?_⟩
  · rcases go_cases (congrFun hpc.symm k) with ⟨rfl,hp⟩ | ⟨he,hp⟩
    · rw [hm,hp,hk,if_pos rfl]
      exact hs.mutex k hi
    · rw [← hp] at hk
      exact absurd (inside_unique hs hi hk) he
  · rw [hm,Option.ite_none_right_eq_some] at hk
    obtain ⟨hp,hk⟩ := hk
    obtain rfl : i = k := Option.some.inj ((hs.mutex i hi).symm.trans hk)
    rw [hpc,Function.update_self]
    exact hp
  · rw [hpc] at hk
    rcases go_cases hk with ⟨rfl,hp⟩ | ⟨he,hp⟩
    · exact hw fe todo hp
    · exact absurd (inside_unique hs hi (by rw [hp]; rfl)) he
  · exact hn i fe todo (by rw [hpc,Function.update_self,hp])

theorem inv_enter {s : Shared} (hs : Inv s) {i : ℕ} {op : Op} (hi : s.pc i = .locked op) :
    Inv (s.enter i op) := by
  have hin : (s.pc i).inside = true := by rw [hi]; rfl
  have hc : Complete s.log := hs.complete_of_inside hin (by rw [hi]; nofun)
  cases op with
  | acquire fe => exact inv_inside hs hin rfl rfl nofun fun _ => hc
  | release fe => exact inv_inside hs hin rfl rfl nofun fun _ => hc
  | tune fe =>
    rw [Shared.enter]
    split_ifs with hb
    · exact inv_inside hs hin rfl rfl nofun fun _ => hc
    · refine inv_inside hs hin rfl rfl (fun fe' todo he => ?_) fun _ => hc
      obtain ⟨rfl,rfl⟩ := Pc.writing.inj he
      refine ⟨⟨[],[],rfl,rfl,List.not_mem_nil,fun e he => absurd he List.not_mem_nil,s.log,hc,?_⟩,
        fun x _ => rfl,?_⟩
      · exact (List.append_nil _).symm
      · rw [not_and_or,not_not,not_not] at hb
        exact hb

theorem Written.of_eq {s s' : Shared} {i : ℕ} {fe : Fe} {todo : List RegWrite}
    (h : Written s i fe todo) (hr : ∀ x ∈ table fe, s'.regs x.demod x.reg = s.regs x.demod x.reg)
    (hp : s'.priv = s.priv) (hl : s'.log = s.log) (hf : s'.found = s.found) :
    Written s' i fe todo := by
  obtain ⟨sent,fates,ht,hall,hrep,hafter,pre,hw,he⟩ := h.sent
  refine ⟨⟨sent,fates,ht,hall,hrep,fun e hm => ?_,pre,hw,hl.trans he⟩,fun x hx => ?_,hp ▸ h.active⟩
  · rw [hr e.1 (by rw [ht]; exact List.mem_append_left _ (List.of_mem_zip hm).1),hf]
    exact hafter e hm
  · rw [hr x (by rw [ht]; exact List.mem_append_right _ hx),hf]
    exact h.untouched x hx

theorem inv_waits {s s' : Shared} (hs : Inv s) {i : ℕ} {p : Pc}
    (hpc : s'.pc = Function.update s.pc i p) (hi : ∀ fe todo, s.pc i ≠ .writing fe todo)
    (hw : ∀ fe todo, p ≠ .writing fe todo)
    (hm : ∀ k, (s'.pc k).inside = true ↔ s'.mutex = some k) (hr : s'.regs = s.regs)
    (hp : s'.priv = s.priv) (hl : s'.log = s.log) (hf : s'.found = s.found) : Inv s' := by
  refine ⟨fun k => (hm k).mp,fun k => (hm k).mpr,fun k fe todo hk => ?_,fun hn => ?_⟩
  · rw [hpc] at hk
    rcases go_cases hk with ⟨_,he⟩ | ⟨_,he⟩
    · exact absurd he (hw fe todo)
    · exact (hs.written k fe todo he).of_eq (fun x _ => by rw [hr]) hp hl hf
  · rw [hl]
    refine hs.complete fun k fe todo hk => ?_
    by_cases he : k = i
    · exact hi fe todo (he ▸ hk)
    · exact hn k fe todo (by rw [hpc,Function.update_of_ne he,hk])

theorem shares_table (fe : Fe) {x : RegWrite} (hx : x ∈ table fe) : Shares x.demod x.reg := by
  refine ⟨x,?_,rfl,rfl⟩
  cases fe with
  | s => exact List.mem_append_left _ hx
  | t => exact List.mem_append_right _ hx

theorem inv_step (s : Shared) (a : Action) (s' : Shared) (hs : Inv s) (h : step s a = some s') :
    Inv s' := by
  cases step_cases h with
  | @call i op hi =>
    refine inv_waits hs rfl (by rw [hi]; nofun) nofun (fun k => ?_) rfl rfl rfl rfl
    change (Function.update s.pc i (.waiting op) k).inside = true ↔ s.mutex = some k
    rcases @go_cases s.pc i k (.waiting op) _ rfl with ⟨he,hp⟩ | ⟨_,hp⟩
    · rw [← hp,he]
      refine iff_of_false nofun fun hm => ?_
      have hh := hs.owner i hm
      rw [hi] at hh
      cases hh
    · rw [← hp]
      exact ⟨hs.mutex k,hs.owner k⟩
  | @lock i op hi hm =>
    refine inv_waits hs rfl (by rw [hi]; nofun) nofun (fun k => ?_) rfl rfl rfl rfl
    change (Function.update s.pc i (.locked op) k).inside = true ↔ some i = some k
    rcases @go_cases s.pc i k (.locked op) _ rfl with ⟨he,hp⟩ | ⟨he,hp⟩
    · rw [← hp,he]
      exact iff_of_true rfl rfl
    · rw [← hp]
      refine iff_of_false (fun hk => ?_) fun hk => he (Option.some.inj hk).symm
      exact absurd (hm.symm.trans (hs.mutex k hk)) nofun
  | enter hi => exact inv_enter hs hi
  | write hi =>
    have hw := hs.written _ _ _ hi
    refine inv_inside hs (by rw [hi]; rfl) rfl rfl (fun fe todo he => ?_) fun hn =>
      absurd rfl (hn _ _)
    obtain ⟨rfl,rfl⟩ := Pc.writing.inj he
    have hf : Fate.taken ≠ .failed := by decide
    exact hw.next hf (setReg_self _ _ _ _) (fun y hy => setReg_of_ne _ _ hy) rfl rfl rfl
  | lose hi =>
    have hw := hs.written _ _ _ hi
    refine inv_inside hs (by rw [hi]; rfl) rfl rfl (fun fe todo he => ?_) fun hn =>
      absurd rfl (hn _ _)
    obtain ⟨rfl,rfl⟩ := Pc.writing.inj he
    have hf : Fate.lost ≠ .failed := by decide
    exact hw.next hf (hw.untouched _ List.mem_cons_self) (fun y _ => rfl) rfl rfl rfl
  | fail hi =>
    exact inv_inside hs (by rw [hi]; rfl) rfl rfl nofun fun _ => (hs.written _ _ _ hi).failed
  | saved hi =>
    obtain ⟨pre,c,hp,hl,ho⟩ := (hs.written _ _ _ hi).session
    exact inv_inside hs (by rw [hi]; rfl) rfl rfl nofun fun _ => hl ▸ hp.append (ho rfl)
  | @unlock i hi =>
    have hin : (s.pc i).inside = true := by rw [hi]; rfl
    exact inv_inside hs hin rfl rfl nofun fun _ => hs.complete_of_inside hin (by rw [hi]; nofun)
  | other ho =>
    refine ⟨hs.mutex,hs.owner,fun k fe todo hk => ?_,hs.complete⟩
    refine (hs.written k fe todo hk).of_eq (fun x hx => setReg_of_ne _ _ fun he => ho ?_) rfl rfl rfl
    rw [← he.1,← he.2]
    exact shares_table fe hx

/-- What a call finds when it goes on to the saved operation: every write of its table was taken
or lost. -/
structure Alone (s : Shared) (i : ℕ) (fe : Fe) : Prop where
  owner : s.mutex = some i
  others : ∀ k ≠ i, (s.pc k).inside = false
  active : s.priv.activeFe = none ∨ s.priv.activeFe = some fe
  sent : ∃ fates, Sent s i (table fe) fates

theorem Inv.alone {s : Shared} (hs : Inv s) {i : ℕ} {fe : Fe} (hi : s.pc i = .writing fe []) :
    Alone s i fe := by
  have hin : (s.pc i).inside = true := by rw [hi]; rfl
  obtain ⟨sent,fates,ht,hsent⟩ := (hs.written i fe [] hi).sent
  rw [List.append_nil] at ht
  refine ⟨hs.mutex i hin,fun k hk => ?_,(hs.written i fe [] hi).active,fates,ht ▸ hsent⟩
  exact Bool.eq_false_iff.mpr fun hh => hk (inside_unique hs hin hh)

/-- In every run of any threads the registers are written by one call after the other, each with
its whole table or up to a write that fails, and a call that goes on to the saved operation is
alone; of its registers, those that took the write hold its value and the others what the call
found. -/
theorem tuned_alone {p : Priv Regs} {regs : Regs} {as : List Action} {s : Shared}
    (h : Exec step (Shared.begin p regs) as s) :
    Whole s.log ∧ ∀ i fe, s.pc i = .writing fe [] → Alone s i fe := by
  have hs := h.invariant inv_step (inv_begin p regs)
  exact ⟨hs.whole,fun i fe hi => hs.alone hi⟩

/-- The second thread tunes the ISDB-T frontend after the first one failed at its third register;
a demodulator driver writes in between, and the second write is lost. -/
def twoThreads : List Action :=
  [.call 0 (.tune .s),.call 1 (.tune .t),.lock 0,.enter 0,.write 0,.other .t 0x03 0x01,.write 0,
    .fail 0 0x55,.unlock 0,.lock 1,.enter 1,.write 1,.call 0 (.tune .s),.lose 1,.write 1,.write 1]

def Pc.isTunedT : Pc → Bool
  | .writing .t [] => true
  | _ => false

theorem tuned_alone_sample :
    ∃ s, Exec step (Shared.begin ⟨none,0,none,none⟩ fun _ _ => 0) twoThreads s ∧
      s.log.map (fun e => e.2.2) = [.taken,.taken,.failed,.taken,.lost,.taken,.taken] ∧
      (s.regs .t 0x0e,s.regs .t 0x0f) = (0x11,0x77) ∧ Whole s.log ∧ Alone s 1 .t := by
  have hr : (run step (Shared.begin ⟨none,0,none,none⟩ fun _ _ => 0) twoThreads).map
      (fun s => (s.log.map (fun e => e.2.2),(s.regs .t 0x0e,s.regs .t 0x0f),(s.pc 1).isTunedT)) =
        some ([.taken,.taken,.failed,.taken,.lost,.taken,.taken],(0x11,0x77),true) := by decide
  obtain ⟨s,hs,hd⟩ := Option.map_eq_some_iff.mp hr
  simp only [Prod.mk.injEq] at hd
  obtain ⟨hl,hregs,ht⟩ := hd
  have hh := tuned_alone (exec_of_run hs)
  refine ⟨s,exec_of_run hs,hl,Prod.ext hregs.1 hregs.2,hh.1,hh.2 1 .t ?_⟩
  rw [Pc.isTunedT.eq_def] at ht
  split at ht
  · assumption
  · cases ht

def Pc.distance : Pc → ℕ
  | .idle => 0
  | .waiting _ => 0
  | .locked _ => 11
  | .writing _ todo => todo.length + 2
  | .leaving => 1

def Action.thread : Action → Option ℕ
  | .call i _ => some i
  | .lock i => some i
  | .enter i => some i
  | .write i => some i
  | .lose i => some i
  | .fail i _ => some i
  | .saved i _ => some i
  | .unlock i => some i
  | .other _ _ _ => none

theorem leaving_lt (op : Op) : Pc.leaving.distance < (Pc.locked op).distance := by
  simp only [Pc.distance]
  omega

/-- In a step, thread `i` stays inside and comes closer to the unlock, or stands still. -/
def Closer (s s' : Shared) (a : Action) (i : ℕ) : Prop :=
  (a.thread = some i → (s'.pc i).inside = true ∧ (s'.pc i).distance < (s.pc i).distance) ∧
    (a.thread ≠ some i → s'.pc i = s.pc i)

theorem closer_of_update {s s' : Shared} {a : Action} {i k : ℕ} {p : Pc} (ha : a.thread = some k)
    (hpc : s'.pc = Function.update s.pc k p)
    (hp : k = i → p.inside = true ∧ p.distance < (s.pc k).distance) : Closer s s' a i := by
  rw [Closer,ha,hpc]
  refine ⟨fun he => ?_,fun hne => Function.update_of_ne (fun he => hne (congrArg some he.symm)) _ _⟩
  obtain rfl := Option.some.inj he
  rw [Function.update_self]
  exact hp rfl

theorem closer_step {s s' : Shared} {a : Action} {i : ℕ} (hi : (s.pc i).inside = true)
    (hu : a ≠ .unlock i) (h : step s a = some s') : Closer s s' a i := by
  cases step_cases h with
  | @call k op hk | @lock k op hk hm =>
    refine closer_of_update (k:=k) rfl rfl fun he => ?_
    rw [← he,hk] at hi
    cases hi
  | @enter k op hk =>
    cases op with
    | acquire fe | release fe =>
      exact closer_of_update (k:=k) rfl rfl fun _ => by rw [hk]; exact ⟨rfl,leaving_lt _⟩
    | tune fe =>
      rw [Shared.enter]
      split_ifs with hb
      · exact closer_of_update (k:=k) rfl rfl fun _ => by rw [hk]; exact ⟨rfl,leaving_lt _⟩
      · exact closer_of_update (k:=k) rfl rfl fun _ => by rw [hk]; exact ⟨rfl,by cases fe <;> decide⟩
  | @write k fe x todo hk | @lose k fe x todo hk =>
    refine closer_of_update (k:=k) rfl rfl fun _ => ?_
    rw [hk]
    exact ⟨rfl,Nat.lt_succ_self _⟩
  | @fail k v fe x todo hk =>
    refine closer_of_update (k:=k) rfl rfl fun _ => ?_
    rw [hk]
    exact ⟨rfl,Nat.succ_lt_succ (Nat.succ_pos _)⟩
  | @saved k regs fe hk =>
    refine closer_of_update (k:=k) rfl rfl fun _ => ?_
    rw [hk]
    exact ⟨rfl,Nat.one_lt_two⟩
  | @unlock k hk => exact closer_of_update (k:=k) rfl rfl fun he => absurd (by rw [he]) hu
  | other ho => exact ⟨nofun,fun _ => rfl⟩

theorem inside_steps {s : Shared} {i : ℕ} (hi : (s.pc i).inside = true) :
    ∃ a, a.thread = some i ∧ (step s a).isSome := by
  rcases hp : s.pc i with _ | _ | op | ⟨fe,_ | ⟨x,todo⟩⟩ | _
  · rw [hp] at hi
    cases hi
  · rw [hp] at hi
    cases hi
  · exact ⟨.enter i,rfl,by simp only [step,hp,Option.isSome_some]⟩
  · exact ⟨.saved i s.regs,rfl,by simp only [step,hp,Option.isSome_some]⟩
  · exact ⟨.write i,rfl,by simp only [step,hp,Option.isSome_some]⟩
  · exact ⟨.unlock i,rfl,by simp only [step,hp,Option.isSome_some]⟩

theorem distance_pos {p : Pc} (h : p.inside = true) : 0 < p.distance := by
  cases p with
  | idle => cases h
  | waiting op => cases h
  | locked op => exact Nat.succ_pos _
  | writing fe todo => exact Nat.succ_pos _
  | leaving => exact Nat.one_pos

theorem distance_run {s t : Shared} {bs : List Action} {i : ℕ} (h : Exec step s bs t)
    (hi : (s.pc i).inside = true) (hu : .unlock i ∉ bs) :
    bs.countP (fun a => a.thread = some i) < (s.pc i).distance := by
  induction h with
  | refl => exact distance_pos hi
  | @succ s t u a bs ha _ ih =>
    obtain ⟨hself,hother⟩ := closer_step hi (fun he => hu (he ▸ List.mem_cons_self)) ha
    have hb : .unlock i ∉ bs := fun hm => hu (List.mem_cons_of_mem a hm)
    by_cases he : a.thread = some i
    · have hd := (hself he).2
      have hc := ih (hself he).1 hb
      rw [List.countP_cons_of_pos (by simpa using he)]
      omega
    · rw [List.countP_cons_of_neg (by simpa using he)]
      have hk := hother he
      rw [hk] at ih
      exact ih hi hb

/-- A thread inside the mutex stands behind the lock or, from the first write on, at most as
many steps before the unlock as its table is long. -/
theorem Inv.distance_le {s : Shared} (hs : Inv s) (i : ℕ) : (s.pc i).distance ≤ 11 := by
  cases hp : s.pc i with
  | writing fe todo =>
    obtain ⟨sent,_,ht,_⟩ := (hs.written i fe todo hp).sent
    have hl := congrArg List.length ht
    rw [List.length_append] at hl
    have hb : (table fe).length ≤ 8 := by cases fe <;> decide
    rw [Pc.distance]
    omega
  | locked op => exact le_rfl
  | idle | waiting op | leaving => exact Nat.le_of_ble_eq_true rfl

/-- A thread that owns the mutex can always take a step, and unlocks after at most ten of its
own, whatever the other threads do and whichever write fails. -/
theorem mutex_freed {p : Priv Regs} {regs : Regs} {as : List Action} {s : Shared}
    (h : Exec step (Shared.begin p regs) as s) {i : ℕ} (hm : s.mutex = some i) :
    (∃ a, a.thread = some i ∧ (step s a).isSome) ∧
      ∀ bs t, Exec step s bs t → .unlock i ∉ bs →
        bs.countP (fun a => a.thread = some i) ≤ 10 := by
  have hs := h.invariant inv_step (inv_begin p regs)
  have hi := hs.owner i hm
  refine ⟨inside_steps hi,fun bs t hb hu => ?_⟩
  have hd := hs.distance_le i
  have hr := distance_run hb hi hu
  omega

theorem mutex_freed_sample :
    ∃ s, Exec step (Shared.begin ⟨none,0,none,none⟩ fun _ _ => 0) [.call 0 (.tune .s),.lock 0] s ∧
      (∃ a : Action, a.thread = some 0 ∧ (step s a).isSome) ∧
      ∀ bs t, Exec step s bs t → .unlock 0 ∉ bs → bs.countP (fun a => a.thread = some 0) ≤ 10 := by
  have hr : (run step (Shared.begin ⟨none,0,none,none⟩ fun _ _ => 0)
      [.call 0 (.tune .s),.lock 0]).map Shared.mutex = some (some 0) := by decide
  obtain ⟨s,hs,hm⟩ := Option.map_eq_some_iff.mp hr
  exact ⟨s,exec_of_run hs,mutex_freed (exec_of_run hs) hm⟩

end TsBus
end AkbPcr20x
