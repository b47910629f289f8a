import AkbPcr20x.Doorbell
import AkbPcr20x.Ports

/-! The firmware as a whole: `main` with its interrupts, and the host at both control
endpoints. An interrupt may come between any two steps. What `handle_setupdata` makes of a
request is a parameter; it only reaches the firmware through the callbacks. -/
namespace AkbPcr20x
namespace Main

open MainLoop Command Transition

/-- The statics that they set. -/
structure Control where
  gConfiguration : Byte
  gAltSetting : Byte
  deriving DecidableEq

def Control.init : Control := ⟨1,0⟩

def handleVendorcommand (_cmd : Byte) : Bool := false

def handleGetInterface (c : Control) (ifc : Byte) : Bool × Option Byte :=
  if ifc ≠ 0 then (false,none) else (true,some c.gAltSetting)

def handleSetInterface (c : Control) (ifc altIfc : Byte) : Bool × Control :=
  if ifc ≠ 0 then (false,c) else (true,{c with gAltSetting := altIfc})

def handleGetConfiguration (c : Control) : Byte := c.gConfiguration

def handleSetConfiguration (c : Control) (cfg : Byte) : Bool × Control :=
  (true,{c with gConfiguration := cfg})

def handleResetEp (c : Control) (_ep : Byte) : Control := c

def handleGetDescriptor : Bool := false

inductive Callback
  | vendorcommand (cmd : Byte)
  | getInterface (ifc : Byte)
  | setInterface (ifc altIfc : Byte)
  | getConfiguration
  | setConfiguration (cfg : Byte)
  | resetEp (ep : Byte)
  | getDescriptor

def Callback.run (c : Control) : Callback → (Bool × Option Byte) × Control
  | .vendorcommand cmd => ((handleVendorcommand cmd,none),c)
  | .getInterface ifc => (handleGetInterface c ifc,c)
  | .setInterface ifc altIfc =>
    (((handleSetInterface c ifc altIfc).1,none),(handleSetInterface c ifc altIfc).2)
  | .getConfiguration => ((true,some (handleGetConfiguration c)),c)
  | .setConfiguration cfg =>
    (((handleSetConfiguration c cfg).1,none),(handleSetConfiguration c cfg).2)
  | .resetEp ep => ((true,none),handleResetEp c ep)
  | .getDescriptor => ((handleGetDescriptor,none),c)

def runCalls : List Callback → Control → List (Bool × Option Byte) × Control
  | [], c => ([],c)
  | k::ks, c =>
    let r := k.run c
    let rest := runCalls ks r.2
    (r.1::rest.1,rest.2)

/-- What `handle_setupdata` makes of a request: its callbacks, and what it does to
`remote_wakeup_allowed`. -/
structure Setupdat (ρ : Type) where
  calls : ρ → List Callback
  allows : ρ → Option Bool

/-- Where `main` stands. `testResume` keeps what the wakeup source read in the loop's test. -/
inductive Pc
  | mainLoop
  | testSud
  | clearSud
  | setup
  | testSuspend
  | clearSuspend
  | suspend
  | asleep
  | testWake
  | testResume (w : Bool)
  deriving DecidableEq

/-- The last request received is the one in SETUPDAT. The numbers of the requests handled and
the replies are read by no step. -/
structure Sys (σ ρ : Type) where
  pc : Pc
  ep : Endpoint.Sys σ
  dosud : Bool
  dosuspend : Bool
  remoteWakeupAllowed : Bool
  control : Control
  requests : List ρ
  handled : List ℕ
  replies : List (Bool × Option Byte)
  sigresume : ℕ

/-- The host at endpoint 1, the interrupts, the wakeup and the steps of `main`, which may read
the wakeup source. -/
inductive Action (ρ : Type)
  | host (a : Endpoint.Action)
  | sudavIsr (r : ρ)
  | suspendIsr
  | wake
  | cpu (w : Bool)

variable {σ ρ : Type}

def handleSetupdata (d : Setupdat ρ) (s : Sys σ ρ) : Sys σ ρ :=
  let r := s.requests.getLast?
  let o := runCalls (r.elim [] d.calls) s.control
  {s with pc := .testSuspend
          remoteWakeupAllowed := (r.bind d.allows).getD s.remoteWakeupAllowed
          control := o.2, replies := s.replies ++ o.1
          handled := s.handled ++ [s.requests.length]}

/-- A step of `main`. The processor stands still while it is asleep. -/
def cpu (b : Board σ) (d : Setupdat ρ) (w : Bool) (s : Sys σ ρ) : Option (Sys σ ρ) :=
  match s.pc with
  | .mainLoop =>
    -- `main_loop` has returned when it is back in front of its first test
    let ep := Endpoint.tick b s.ep
    some {s with ep := ep, pc := if ep.pc = .poll then .testSud else .mainLoop}
  | .testSud => some {s with pc := if s.dosud then .clearSud else .testSuspend}
  | .clearSud => some {s with pc := .setup, dosud := false}
  | .setup => some (handleSetupdata d s)
  | .testSuspend => some {s with pc := if s.dosuspend then .clearSuspend else .mainLoop}
  | .clearSuspend => some {s with pc := .suspend, dosuspend := false}
  | .suspend => some {s with pc := .asleep}
  | .asleep => none
  | .testWake =>
    some {s with pc := if !s.remoteWakeupAllowed && w then .suspend else .testResume w}
  | .testResume _ => some {s with pc := .mainLoop, sigresume := s.sigresume + w.toNat}

def step (b : Board σ) (d : Setupdat ρ) (s : Sys σ ρ) : Action ρ → Option (Sys σ ρ)
  | .host .tick => none
  | .host a => (Endpoint.step b s.ep a).map fun ep => {s with ep := ep}
  | .sudavIsr r => some {s with dosud := true, requests := s.requests ++ [r]}
  | .suspendIsr => some {s with dosuspend := true}
  | .wake => if s.pc = .asleep then some {s with pc := .testWake} else none
  | .cpu w => cpu b d w s

def boot (fw : Fw σ) : Sys σ ρ :=
  ⟨.mainLoop,Endpoint.Sys.boot (Ports.mainInit fw),false,false,false,.init,[],[],[],0⟩

variable {b : Board σ} {d : Setupdat ρ} {s t : Sys σ ρ}

def Action.atEndpoint : Action ρ → Option Endpoint.Action
  | .host a => some a
  | _ => none

def hostPart : Endpoint.Action → Option Endpoint.Action
  | .tick => none
  | e => some e

theorem host_step {e : Endpoint.Action} (h : step b d s (.host e) = some t) :
    hostPart e = some e ∧ ∃ ep, Endpoint.step b s.ep e = some ep ∧ t = {s with ep := ep} := by
  cases e with
  | tick => cases h
  | send pkt =>
    obtain ⟨ep,he,ht⟩ := Option.map_eq_some_iff.mp h
    exact ⟨rfl,ep,he,ht.symm⟩
  | fetch =>
    obtain ⟨ep,he,ht⟩ := Option.map_eq_some_iff.mp h
    exact ⟨rfl,ep,he,ht.symm⟩

theorem wake_step (h : step b d s .wake = some t) : s.pc = .asleep ∧ t = {s with pc := .testWake} := by
  simp only [step] at h
  split_ifs at h with hp
  exact ⟨hp,(Option.some.inj h).symm⟩

/-- Everything an action can do to endpoint 1: the host's part, or a step of `main_loop`. -/
theorem ep_step {a : Action ρ} (h : step b d s a = some t) :
    (∃ e, a = .host e ∧ hostPart e = some e ∧ Endpoint.step b s.ep e = some t.ep) ∨
      a.atEndpoint = none ∧ (t.ep = s.ep ∨ t.ep = Endpoint.tick b s.ep) := by
  cases a with
  | host e =>
    obtain ⟨hp,ep,he,rfl⟩ := host_step h
    exact Or.inl ⟨e,rfl,hp,he⟩
  | sudavIsr r =>
    obtain rfl := Option.some.inj h
    exact Or.inr ⟨rfl,Or.inl rfl⟩
  | suspendIsr =>
    obtain rfl := Option.some.inj h
    exact Or.inr ⟨rfl,Or.inl rfl⟩
  | wake =>
    obtain ⟨_,rfl⟩ := wake_step h
    exact Or.inr ⟨rfl,Or.inl rfl⟩
  | cpu w =>
    refine Or.inr ⟨rfl,?_⟩
    simp only [step,cpu] at h
    split at h <;> cases h
    · exact Or.inr rfl
    all_goals exact Or.inl rfl

/-- Whatever the interrupts do, endpoint 1 goes through a run of its own, in which the host
sends the same packets and takes the same answers. -/
theorem ep_run {as : List (Action ρ)} (h : Exec (step b d) s as t) :
    ∃ es, Exec (Endpoint.step b) s.ep es t.ep ∧
      es.filterMap hostPart = as.filterMap Action.atEndpoint := by
  induction h with
  | refl s => exact ⟨[],.refl _,rfl⟩
  | succ ha _ ih =>
    obtain ⟨es,he,hes⟩ := ih
    rcases ep_step ha with ⟨e,rfl,hp,hs⟩ | ⟨hn,hs | hs⟩
    · refine ⟨e::es,.succ hs he,?_⟩
      rw [List.filterMap_cons_some hp,hes]
      rfl
    · exact ⟨es,hs ▸ he,by rw [List.filterMap_cons_none hn,hes]⟩
    · refine ⟨.tick::es,.succ (congrArg some hs.symm) he,?_⟩
      rw [List.filterMap_cons_none rfl,List.filterMap_cons_none hn,hes]

def phase : Pc → Doorbell.Phase
  | .clearSud => .clear
  | .setup => .serve
  | _ => .away

def bell (s : Sys σ ρ) : Doorbell.Bell := ⟨phase s.pc,s.dosud,s.requests.length,s.handled⟩

/-- No action does more to the doorbell than one step of its own. -/
theorem bell_step {a : Action ρ} (h : step b d s a = some t) :
    bell t = bell s ∨ ∃ act, Doorbell.step (bell s) act = some (bell t) := by
  cases a with
  | host e =>
    obtain ⟨_,ep,_,rfl⟩ := host_step h
    exact Or.inl rfl
  | sudavIsr r =>
    obtain rfl := Option.some.inj h
    exact Or.inr ⟨.ring,by simp [Doorbell.step,bell]⟩
  | suspendIsr =>
    obtain rfl := Option.some.inj h
    exact Or.inl rfl
  | wake =>
    obtain ⟨hp,rfl⟩ := wake_step h
    exact Or.inl (by simp [bell,hp,phase])
  | cpu w =>
    simp only [step,cpu] at h
    cases hp : s.pc with
    | asleep =>
      rw [hp] at h
      cases h
    | testSud =>
      rw [hp] at h
      obtain rfl := Option.some.inj h
      refine Or.inr ⟨.test,?_⟩
      cases hf : s.dosud <;> simp [Doorbell.step,bell,hp,hf,phase]
    | clearSud =>
      rw [hp] at h
      obtain rfl := Option.some.inj h
      exact Or.inr ⟨.clear,by simp [Doorbell.step,bell,hp,phase]⟩
    | setup =>
      rw [hp] at h
      obtain rfl := Option.some.inj h
      exact Or.inr ⟨.serve,by simp [Doorbell.step,bell,hp,phase,handleSetupdata]⟩
    | mainLoop | testSuspend | testWake =>
      rw [hp] at h
      obtain rfl := Option.some.inj h
      refine Or.inl ?_
      simp only [bell,hp]
      split_ifs <;> rfl
    | clearSuspend | suspend | testResume =>
      rw [hp] at h
      obtain rfl := Option.some.inj h
      exact Or.inl (by simp [bell,hp,phase])

theorem bell_inv (s : Sys σ ρ) (a : Action ρ) (t : Sys σ ρ) (h : (bell s).Inv)
    (ht : step b d s a = some t) : (bell t).Inv := by
  rcases bell_step ht with he | ⟨act,he⟩
  · rwa [he]
  · exact Doorbell.inv_step _ act _ h he

def Callback.configuration : Callback → Option Byte
  | .setConfiguration cfg => some cfg
  | _ => none

def Callback.altSetting : Callback → Option Byte
  | .setInterface ifc altIfc => if ifc ≠ 0 then none else some altIfc
  | _ => none

theorem runCalls_control (ks : List Callback) (c : Control) : (runCalls ks c).2 =
    ⟨latest Callback.configuration ks c.gConfiguration,latest Callback.altSetting ks c.gAltSetting⟩ := by
  induction ks generalizing c with
  | nil => rfl
  | cons k ks ih =>
    have hk : (k.run c).2 = ⟨k.configuration.getD c.gConfiguration,
        k.altSetting.getD c.gAltSetting⟩ := by
      cases k with
      | setInterface ifc altIfc =>
        simp only [Callback.run,handleSetInterface,Callback.configuration,Callback.altSetting]
        split_ifs <;> rfl
      | _ => rfl
    rw [runCalls,ih,hk,latest_cons,latest_cons]

/-- The settings behind the request with a number. -/
def settle (d : Setupdat ρ) (rs : List ρ) (c : Control) (n : ℕ) : Control :=
  (runCalls ((rs[n-1]?).elim [] d.calls) c).2

/-- A request that is handled twice in a row sets what it set the first time. -/
theorem settle_twice (d : Setupdat ρ) (rs : List ρ) (c : Control) (n : ℕ) :
    settle d rs (settle d rs c n) n = settle d rs c n := by
  simp only [settle,runCalls_control,latest_latest]

theorem settle_append (d : Setupdat ρ) (rs : List ρ) (r : ρ) {ns : List ℕ}
    (hn : ∀ n ∈ ns, 0 < n ∧ n ≤ rs.length) (c : Control) :
    ns.foldl (settle d (rs ++ [r])) c = ns.foldl (settle d rs) c := by
  induction ns generalizing c with
  | nil => rfl
  | cons n ns ih =>
    rw [List.forall_mem_cons] at hn
    have he : settle d (rs ++ [r]) c n = settle d rs c n := by
      rw [settle,settle,List.getElem?_append_left (by omega)]
    rw [List.foldl_cons,List.foldl_cons,he,ih hn.2]

/-- The statics hold what the requests handled so far have set. -/
structure Settled (d : Setupdat ρ) (s : Sys σ ρ) : Prop where
  bell : (bell s).Inv
  control : s.control = s.handled.foldl (settle d s.requests) .init

theorem settled_step (s : Sys σ ρ) (a : Action ρ) (t : Sys σ ρ) (h : Settled d s)
    (ht : step b d s a = some t) : Settled d t := by
  refine ⟨bell_inv s a t h.bell ht,?_⟩
  have hc := h.control
  cases a with
  | host e =>
    obtain ⟨_,ep,_,rfl⟩ := host_step ht
    exact hc
  | sudavIsr r =>
    obtain rfl := Option.some.inj ht
    exact hc.trans (settle_append d s.requests r h.bell.bound .init).symm
  | suspendIsr =>
    obtain rfl := Option.some.inj ht
    exact hc
  | wake =>
    obtain ⟨_,rfl⟩ := wake_step ht
    exact hc
  | cpu w =>
    simp only [step,cpu] at ht
    cases hp : s.pc with
    | asleep =>
      rw [hp] at ht
      cases ht
    | setup =>
      rw [hp] at ht
      obtain rfl := Option.some.inj ht
      have hg : s.requests.getLast? = s.requests[s.requests.length-1]? := List.getLast?_eq_getElem?
      simp only [handleSetupdata,List.foldl_append,List.foldl_cons,List.foldl_nil,← hc,settle,hg]
    | _ =>
      rw [hp] at ht
      obtain rfl := Option.some.inj ht
      exact hc

/-- Requests at endpoint 0, over any interleaving of `main` with its interrupts. They are
handled in the order of their arrival, none of them more than twice. Where `main` is not
about to handle one and `dosud` is down, the last request has been handled. The settings are
those of a sequence of requests in the order of arrival, each of them obeyed once. -/
theorem requests_accounted (fw : Fw σ) {as : List (Action ρ)} {s : Sys σ ρ}
    (h : Exec (step b d) (boot fw) as s) :
    s.handled.Pairwise (· ≤ ·) ∧
      (∀ n, s.handled.count n ≤ if 0 < n ∧ n ≤ s.requests.length then 2 else 0) ∧
      (s.pc ≠ .clearSud → s.pc ≠ .setup → s.dosud = false → s.requests ≠ [] →
        s.requests.length ∈ s.handled) ∧
      ∃ ns : List ℕ, ns.Pairwise (· < ·) ∧ (∀ n, n ∈ ns ↔ n ∈ s.handled) ∧
        s.control = ns.foldl (settle d s.requests) .init := by
  obtain ⟨hb,hc⟩ := h.invariant settled_step ⟨Doorbell.Bell.inv_idle,rfl⟩
  refine ⟨hb.sorted,fun n => ?_,fun hcl hse hf hne => ?_,s.handled.dedup,
    Doorbell.dedup_strict hb.sorted,fun n => List.mem_dedup,?_⟩
  · split_ifs with hn
    · exact hb.twice n
    · exact (List.count_eq_zero.mpr fun hm => hn (hb.bound n hm)).le
  · refine hb.answered ?_ hf (List.length_pos_iff.mpr hne)
    cases hp : s.pc <;> first | exact absurd hp hcl | exact absurd hp hse | simp [bell,hp,phase]
  · rw [hc]
    exact Doorbell.foldl_dedup (fun c n => settle_twice d s.requests c n) hb.sorted .init

def setConfigurations : Setupdat Byte := ⟨fun cfg => [.setConfiguration cfg],fun _ => none⟩

/-- The second request comes between the clear of `dosud` and the service of the first one. -/
theorem requests_accounted_sample : ∃ s : Sys Unit Byte,
    Exec (step Endpoint.pinBoard setConfigurations) (boot (Link.idle ()))
      [.sudavIsr 3,.cpu false,.cpu false,.cpu false,.sudavIsr 4,.cpu false,.cpu false] s ∧
      s.handled.Pairwise (· ≤ ·) := by
  have hr : (run (step Endpoint.pinBoard setConfigurations) (boot (Link.idle ()))
      [.sudavIsr 3,.cpu false,.cpu false,.cpu false,.sudavIsr 4,.cpu false,.cpu false]).isSome := by
    decide
  obtain ⟨s,hs⟩ := Option.isSome_iff_exists.mp hr
  exact ⟨s,exec_of_run hs,(requests_accounted (Link.idle ()) (exec_of_run hs)).1⟩

/-- The steps of `main_loop` up to its return; 256 turns are enough for any packet. -/
def epRank (ep : Endpoint.Sys σ) : ℕ :=
  match ep.pc with
  | .poll => 260
  | .gate => 259
  | .run => ep.l.cmdCnt.toNat + 3
  | .rearm => 2
  | .arm => 1

/-- The steps of `main` up to the end of the next `handle_setupdata`. -/
def rank (s : Sys σ ρ) : ℕ :=
  match s.pc with
  | .setup => 1
  | .clearSud => 2
  | .testSud => 3
  | .mainLoop => 3 + epRank s.ep
  | .testSuspend => 264
  | _ => 0

/-- `main` is not about to suspend the processor. -/
def Awake (s : Sys σ ρ) : Prop :=
  s.dosuspend = false ∧
    (s.pc = .mainLoop ∨ s.pc = .testSud ∨ s.pc = .clearSud ∨ s.pc = .setup ∨ s.pc = .testSuspend)

def Answered (s : Sys σ ρ) : Prop := s.requests.length ∈ s.handled

theorem tick_rank (b : Board σ) (ep : Endpoint.Sys σ) :
    (Endpoint.tick b ep).pc = .poll ∨ epRank (Endpoint.tick b ep) < epRank ep := by
  cases hp : ep.pc with
  | poll =>
    cases ho : ep.outBusy with
    | true => exact Or.inl (by simp [Endpoint.tick,hp,ho])
    | false => exact Or.inr (by simp [Endpoint.tick,epRank,hp,ho])
  | gate =>
    cases hi : ep.inBusy with
    | true => exact Or.inl (by simp [Endpoint.tick,hp,hi])
    | false =>
      have hc := ep.outBc.isLt
      refine Or.inr ?_
      simp only [Endpoint.tick,epRank,hp,hi,Bool.false_eq_true,if_false,Endpoint.fresh]
      omega
  | run =>
    refine Or.inr ?_
    by_cases hc : ep.l.cmdCnt = 0
    · rw [Endpoint.tick_done b hp hc]
      simp only [epRank,hp]
      omega
    · have ht := (turn_packet b hc).2
      rw [Endpoint.tick_turn b hp hc]
      simp only [epRank,hp]
      omega
  | rearm => exact Or.inr (by simp [Endpoint.tick,epRank,hp])
  | arm =>
    refine Or.inl ?_
    simp only [Endpoint.tick,hp]
    split_ifs <;> rfl

theorem epRank_le (ep : Endpoint.Sys σ) : epRank ep ≤ 260 := by
  have hc := ep.l.cmdCnt.isLt
  unfold epRank
  split <;> omega

theorem cpu_rank {w : Bool} (hb : (bell s).Inv) (hw : Awake s) (hne : s.requests ≠ [])
    (h : cpu b d w s = some t) :
    Awake t ∧ t.requests = s.requests ∧
      (Answered s ∨ Answered t ∨ rank t < rank s) := by
  obtain ⟨hs,hp⟩ := hw
  have hlen : 0 < s.requests.length := List.length_pos_iff.mpr hne
  rcases hp with hp | hp | hp | hp | hp <;> simp only [cpu,hp] at h <;>
    obtain rfl := Option.some.inj h
  · rcases tick_rank b s.ep with ht | ht
    · rw [if_pos ht]
      refine ⟨⟨hs,Or.inr (Or.inl rfl)⟩,rfl,Or.inr (Or.inr ?_)⟩
      simp only [rank,hp]
      have : 0 < epRank s.ep := by
        unfold epRank
        split <;> omega
      omega
    · by_cases hpoll : (Endpoint.tick b s.ep).pc = .poll
      · rw [if_pos hpoll]
        refine ⟨⟨hs,Or.inr (Or.inl rfl)⟩,rfl,Or.inr (Or.inr ?_)⟩
        simp only [rank,hp]
        omega
      · rw [if_neg hpoll]
        refine ⟨⟨hs,Or.inl rfl⟩,rfl,Or.inr (Or.inr ?_)⟩
        simp only [rank,hp]
        omega
  · cases hf : s.dosud with
    | false => exact ⟨⟨hs,by simp⟩,rfl,Or.inl (hb.answered (by simp [bell,hp,phase]) hf hlen)⟩
    | true => exact ⟨⟨hs,by simp⟩,rfl,Or.inr (Or.inr (by simp [rank,hp]))⟩
  · exact ⟨⟨hs,by simp⟩,rfl,Or.inr (Or.inr (by simp [rank,hp]))⟩
  · exact ⟨⟨hs,by simp [handleSetupdata]⟩,rfl,Or.inr (Or.inl (by simp [Answered,handleSetupdata]))⟩
  · have he := epRank_le s.ep
    refine ⟨⟨hs,by simp [hs]⟩,rfl,Or.inr (Or.inr ?_)⟩
    simp only [rank,hp,hs,Bool.false_eq_true,if_false]
    omega

def Action.isCpu : Action ρ → Bool
  | .cpu _ => true
  | _ => false

def Action.quiet : Action ρ → Bool
  | .host _ => true
  | .cpu _ => true
  | _ => false

theorem host_rank {e : Endpoint.Action} (h : step b d s (.host e) = some t) :
    t.pc = s.pc ∧ t.dosuspend = s.dosuspend ∧ t.requests = s.requests ∧ t.handled = s.handled ∧
      rank t = rank s := by
  obtain ⟨hp,ep,he,rfl⟩ := host_step h
  cases e with
  | tick => cases hp
  | send pkt =>
    simp only [Endpoint.step] at he
    split_ifs at he
    obtain rfl := Option.some.inj he
    exact ⟨rfl,rfl,rfl,rfl,rfl⟩
  | fetch =>
    simp only [Endpoint.step] at he
    split_ifs at he
    obtain rfl := Option.some.inj he
    exact ⟨rfl,rfl,rfl,rfl,rfl⟩

theorem cpu_answered {w : Bool} (h : Answered s) (hr : t.requests = s.requests)
    (ht : cpu b d w s = some t) : Answered t := by
  have hm : ∃ ns, t.handled = s.handled ++ ns := by
    simp only [cpu] at ht
    split at ht <;> cases ht
    case h_4 => exact ⟨_,rfl⟩
    all_goals exact ⟨[],(List.append_nil _).symm⟩
  obtain ⟨ns,hn⟩ := hm
  rw [Answered,hr,hn]
  exact List.mem_append_left _ h

theorem rank_pos (h : Awake s) : 0 < rank s := by
  obtain ⟨_,hp | hp | hp | hp | hp⟩ := h <;> simp [rank,hp]

/-- The induction over a run without another interrupt: each step of `main` uses up one. -/
theorem answered_run {bs : List (Action ρ)} (h : Exec (step b d) s bs t) (hb : (bell s).Inv)
    (hw : Awake s) (hne : s.requests ≠ []) (hq : ∀ a ∈ bs, a.quiet = true)
    (hn : Answered s ∨ rank s ≤ bs.countP Action.isCpu) :
    t.requests = s.requests ∧ Answered t := by
  induction h with
  | refl s =>
    refine ⟨rfl,hn.resolve_right fun hle => ?_⟩
    have := rank_pos hw
    simp only [List.countP_nil] at hle
    omega
  | @succ s s' u a as hs _ ih =>
    rw [List.forall_mem_cons] at hq
    have hb' := bell_inv s a s' hb hs
    cases a with
    | host e =>
      obtain ⟨hpc,hsus,hreq,hhan,hrank⟩ := host_rank hs
      have hw' : Awake s' := by rwa [Awake,hpc,hsus]
      have hn' : Answered s' ∨ rank s' ≤ as.countP Action.isCpu := by
        rw [Answered,hreq,hhan,hrank]
        exact hn
      have hh := ih hb' hw' (hreq ▸ hne) hq.2 hn'
      exact ⟨hh.1.trans hreq,hh.2⟩
    | cpu w =>
      obtain ⟨hw',hreq,hans⟩ := cpu_rank hb hw hne hs
      have hn' : Answered s' ∨ rank s' ≤ as.countP Action.isCpu := by
        rcases hn with hn | hn
        · exact Or.inl (cpu_answered hn hreq hs)
        rcases hans with ha | ha | ha
        · exact Or.inl (cpu_answered ha hreq hs)
        · exact Or.inl ha
        · have hc : (Action.cpu w::as).countP Action.isCpu = as.countP Action.isCpu + 1 :=
            List.countP_cons_of_pos rfl
          exact Or.inr (by omega)
      have hh := ih hb' hw' (hreq ▸ hne) hq.2 hn'
      exact ⟨hh.1.trans hreq,hh.2⟩
    | _ => exact absurd hq.1 (by simp [Action.quiet])

/-- A request does not wait for long. Unless the processor is about to be suspended or more
interrupts come, 264 steps of `main` are enough to handle the last request, whatever the host
does at endpoint 1 and whatever the packet in work contains. -/
theorem request_in_time (fw : Fw σ) {as bs : List (Action ρ)} {s t : Sys σ ρ}
    (h : Exec (step b d) (boot fw) as s) (hw : Awake s) (hne : s.requests ≠ [])
    (h' : Exec (step b d) s bs t) (hq : ∀ a ∈ bs, a.quiet = true)
    (hn : 264 ≤ bs.countP Action.isCpu) :
    t.requests = s.requests ∧ Answered t := by
  have hb := (h.invariant settled_step ⟨Doorbell.Bell.inv_idle,rfl⟩).bell
  refine answered_run h' hb hw hne hq (Or.inr ?_)
  have he := epRank_le s.ep
  obtain ⟨_,hp | hp | hp | hp | hp⟩ := hw <;> simp only [rank,hp] <;> omega

theorem request_in_time_sample : ∃ s t : Sys Unit Byte,
    Exec (step Endpoint.pinBoard setConfigurations) s (List.replicate 264 (.cpu false)) t ∧
      t.requests = s.requests ∧ Answered t := by
  have hr : (run (step Endpoint.pinBoard setConfigurations) (boot (Link.idle ()))
      [.sudavIsr 3]).isSome := rfl
  obtain ⟨s,hs⟩ := Option.isSome_iff_exists.mp hr
  have hs' := Option.some.inj hs
  have hr' : (run (step Endpoint.pinBoard setConfigurations) s
      (List.replicate 264 (.cpu false))).isSome := by
    rw [← hs']
    decide +kernel
  obtain ⟨t,ht⟩ := Option.isSome_iff_exists.mp hr'
  refine ⟨s,t,exec_of_run ht,request_in_time (Link.idle ()) (exec_of_run hs) ?_ ?_
    (exec_of_run ht) (fun a ha => ?_) ?_⟩
  · rw [← hs']
    exact ⟨rfl,Or.inl rfl⟩
  · rw [← hs']
    exact List.cons_ne_nil _ _
  · rw [List.eq_of_mem_replicate ha]
    rfl
  · rw [List.countP_replicate]
    decide

/-- Over any run, with any packets, interrupts, I2C outcomes and pin values: the firmware has run
the commands accepted so far in order, with nothing left over where the host may send, and the
registers are those that they have set, each with what port D showed it. The mode pins are driven,
and the commands alone determine the mode; a stream's FIFO is on exactly if the last of its start
and stop commands was a start. -/
theorem registers_follow (fw : Fw σ) {as : List (Action ρ)} {s : Sys σ ρ}
    (h : Exec (step b d) (boot fw) as s) :
    let c := s.ep.l.core
    let c₀ := (Ports.mainInit fw).core
    (Ports.panel c).Driven ∧ ∃ ks todo : List Cmd,
      Ports.cmds s.ep.accepted = ks ++ todo ∧ (s.ep.outBusy = true → todo = []) ∧
      c = (runAll b c₀ ks).core ∧
      Ports.panel c = (Ports.trail b c₀ ks).foldl Ports.Panel.step (Ports.panel c₀) ∧
      c.sfr .iod &&& Ports.modePins = ks.foldl Ports.mode 0 ∧
      ∀ r, r = .ep2fifocfg ∨ r = .ep4fifocfg ∨ r = .ep6fifocfg →
        c.sfr r = latest (Ports.streams r) ks 0x04 := by
  intro c c₀
  obtain ⟨es,he,_⟩ := ep_run h
  have hf := he.invariant Ports.follows_step (Ports.follows_boot b (Ports.mainInit fw))
  obtain ⟨ks,todo,hcmds,hcore,htodo⟩ := hf.split
  have hp : Ports.panel c = (Ports.trail b c₀ ks).foldl Ports.Panel.step (Ports.panel c₀) := by
    rw [← Ports.panel_runAll]
    exact congrArg Ports.panel hcore
  have hd := (Ports.driven_mainInit fw).foldl (Ports.trail b c₀ ks)
  rw [← hp,Ports.trail_cmds,Ports.mode_mainInit] at hd
  refine ⟨hd.1,ks,todo,hcmds,htodo,hcore,hp,hd.2,fun r hr => ?_⟩
  have hl := Ports.fifo_latest hr (Ports.trail b c₀ ks) (Ports.panel c₀)
  rw [← hp,Ports.trail_cmds,Ports.fifo_mainInit fw hr] at hl
  exact hl

/-- The direction and the value of port D and a start in one packet. -/
theorem registers_follow_sample : ∃ s : Sys Unit Byte,
    Exec (step Endpoint.pinBoard setConfigurations) (boot (Link.idle ()))
      (.host (.send [0x54,0x00,0x3c,0x58,0x15,0x50])::List.replicate 7 (.cpu false)) s ∧
      (Ports.panel s.ep.l.core).Driven ∧
      s.ep.l.core =
        (runAll Endpoint.pinBoard (Ports.mainInit (Link.idle ())).core
          (Ports.cmds s.ep.accepted)).core ∧
      s.ep.l.core.sfr .oed = 0xfc ∧ s.ep.l.core.sfr .iod = 0xd4 ∧
      s.ep.l.core.sfr .ep6fifocfg = 0x0c := by
  have hr : (run (step Endpoint.pinBoard setConfigurations) (boot (Link.idle ()))
      (.host (.send [0x54,0x00,0x3c,0x58,0x15,0x50])::List.replicate 7 (.cpu false))).map
        (fun s => (s.ep.outBusy,s.ep.l.core.sfr .oed,s.ep.l.core.sfr .iod,
          s.ep.l.core.sfr .ep6fifocfg)) = some (true,0xfc,0xd4,0x0c) := by
    decide +kernel
  obtain ⟨s,hs,hv⟩ := Option.map_eq_some_iff.mp hr
  simp only [Prod.mk.injEq] at hv
  obtain ⟨hd,ks,todo,hc,ht,hcore,_⟩ := registers_follow (Link.idle ()) (exec_of_run hs)
  rw [ht hv.1,List.append_nil] at hc
  exact ⟨s,exec_of_run hs,hd,hc ▸ hcore,hv.2⟩

/-- A wakeup source that is on behind the loop was on in the loop's test. -/
def Steady (s : Sys σ ρ) : Action ρ → Prop
  | .cpu w => ∀ v, s.pc = .testResume v → w = true → v = true
  | _ => True

/-- Behind the loop, a wakeup source that was on is allowed to wake the host. -/
def Permitted (s : Sys σ ρ) : Prop := s.pc = .testResume true → s.remoteWakeupAllowed = true

/-- A step that signals resume. -/
def Signals (b : Board σ) (d : Setupdat ρ) (s : Sys σ ρ) (a : Action ρ) : Prop :=
  ∃ t, step b d s a = some t ∧ t.sigresume ≠ s.sigresume

theorem permitted_step (s : Sys σ ρ) (a : Action ρ) (t : Sys σ ρ) (h : Permitted s)
    (ht : step b d s a = some t) : Permitted t := by
  cases a with
  | host e =>
    obtain ⟨_,ep,_,rfl⟩ := host_step ht
    exact h
  | sudavIsr r =>
    obtain rfl := Option.some.inj ht
    exact h
  | suspendIsr =>
    obtain rfl := Option.some.inj ht
    exact h
  | wake =>
    obtain ⟨_,rfl⟩ := wake_step ht
    exact fun hn => by cases hn
  | cpu w =>
    intro hn
    simp only [step,cpu] at ht
    cases hp : s.pc with
    | asleep =>
      rw [hp] at ht
      cases ht
    | testWake =>
      rw [hp] at ht
      obtain rfl := Option.some.inj ht
      simp only at hn
      split_ifs at hn with hw
      simp only [Pc.testResume.injEq] at hn
      simpa [hn] using hw
    | mainLoop | testSud | testSuspend =>
      rw [hp] at ht
      obtain rfl := Option.some.inj ht
      simp only at hn
      split_ifs at hn
    | _ =>
      rw [hp] at ht
      obtain rfl := Option.some.inj ht
      cases hn

/-- Only the step behind the suspend loop signals resume. -/
theorem signals_permitted (s : Sys σ ρ) (a : Action ρ) (h : Permitted s) (hc : Steady s a)
    (hs : Signals b d s a) : s.remoteWakeupAllowed = true := by
  obtain ⟨t,ht,hne⟩ := hs
  cases a with
  | host e =>
    obtain ⟨_,ep,_,rfl⟩ := host_step ht
    exact absurd rfl hne
  | sudavIsr r =>
    obtain rfl := Option.some.inj ht
    exact absurd rfl hne
  | suspendIsr =>
    obtain rfl := Option.some.inj ht
    exact absurd rfl hne
  | wake =>
    obtain ⟨_,rfl⟩ := wake_step ht
    exact absurd rfl hne
  | cpu w =>
    simp only [step,cpu] at ht
    cases hp : s.pc with
    | asleep =>
      rw [hp] at ht
      cases ht
    | testResume v =>
      rw [hp] at ht
      obtain rfl := Option.some.inj ht
      have hw : w = true := by
        cases w with
        | true => rfl
        | false => exact absurd (Nat.add_zero _) hne
      have hv : v = true := hc v hp hw
      exact h (by rw [hp,hv])
    | _ =>
      rw [hp] at ht
      obtain rfl := Option.some.inj ht
      exact absurd rfl hne

/-- The firmware does not wake a host that has not allowed it, as long as the wakeup source
does not come on between the two reads that `main` makes of it. -/
theorem resume_permitted (fw : Fw σ) {as : List (Action ρ)}
    (hc : Along Steady (step b d) (boot fw) as) :
    Along (fun s a => Signals b d s a → s.remoteWakeupAllowed = true) (step b d) (boot fw) as :=
  along_of_along (I:=Permitted) (fun s a t h _ ht => permitted_step s a t h ht)
    (fun s a h hc => signals_permitted s a h hc) (fun h => by cases h) hc

def setFeatures : Setupdat Bool := ⟨fun _ => [],some⟩

/-- The host allows the wakeup and suspends; then the wakeup source comes on. -/
theorem resume_permitted_sample :
    Along (fun s a => Signals Endpoint.pinBoard setFeatures s a → s.remoteWakeupAllowed = true)
      (step Endpoint.pinBoard setFeatures) (boot (Link.idle ()))
      [.sudavIsr true,.suspendIsr,.cpu false,.cpu false,.cpu false,.cpu false,.cpu false,.cpu false,
        .cpu false,.wake,.cpu true,.cpu true] := by
  refine resume_permitted (Link.idle ()) ?_
  have hc {w : Bool} {s : Sys Unit Bool} (h : ∀ v, s.pc ≠ .testResume v) : Steady s (.cpu w) :=
    fun v hv => absurd hv (h v)
  refine .cons trivial rfl (.cons trivial rfl (.cons (hc ?_) rfl (.cons (hc ?_) rfl
    (.cons (hc ?_) rfl (.cons (hc ?_) rfl (.cons (hc ?_) rfl (.cons (hc ?_) rfl (.cons (hc ?_) rfl
    (.cons trivial rfl (.cons (hc ?_) rfl
    (.cons (fun v hv hw => (Pc.testResume.inj hv).symm.trans hw) rfl trivial)))))))))))
  all_goals exact fun v hv => by cases hv

end Main
end AkbPcr20x
