import AkbPcr20x.Agreement
import AkbPcr20x.Transition

/-! Pairing of requests and answers at endpoint 1. Requests carry no number, so the
model numbers the transfers of the driver and tags the packet in EP1OUT and the answer
in EP1IN with the transfer they come from. The tags are read by no step. -/
namespace AkbPcr20x
namespace Pairing

open Memory MainLoop Command I2cXfer I2cEngine Link Agreement Transition

variable {σ : Type}

abbrev Request := {t : Transaction // t.Accepted}

def rlen : Transaction → Option ℕ
  | .write _ => none
  | .pair _ r => some r.len

/-- Where the one transfer under `i2c_mutex` stands: its OUT transfer is submitted, its
packet is taken, its IN transfer waits for `n` bytes. -/
inductive Phase
  | idle
  | out (i : ℕ) (t : Request)
  | taken (i : ℕ) (t : Request)
  | inn (i n : ℕ)

/-- The transfer whose packet is taken and whose answer is still wanted. -/
def expects : Phase → Option (ℕ × ℕ)
  | .taken i t => (rlen t.1).map fun n => (i,n)
  | .inn i n => some (i,n)
  | _ => none

/-- Driver and firmware, the tags, the events of the pass over each transfer's packet
and the bytes handed to the callers. -/
structure Sys (σ : Type) where
  fw : Fw σ
  host : Phase
  next : ℕ
  rbuf : Mem Byte
  outTag : ℕ
  inTag : ℕ
  executed : ℕ → Option (List Ev)
  handed : List (ℕ × List Byte)

/-- `giveUp` is the error path of the driver from any point of a transfer. An answer
that is too long ends in it too, and may be flushed by the cleared halt. -/
inductive Action
  | start (t : Request)
  | accept
  | outDone
  | giveUp
  | poll
  | take (flush : Bool)

def accept (s : Sys σ) : Option (Sys σ) :=
  match s.host with
  | .out i t =>
    if s.fw.outBusy then
      some {s with fw := deliver s.fw t.1.packet, outTag := i, host := .taken i t}
    else none
  | _ => none

/-- A write alone is over when its packet is taken. -/
def outDone (s : Sys σ) : Option (Sys σ) :=
  match s.host with
  | .taken i t =>
    some {s with host := match rlen t.1 with
      | none => .idle
      | some n => .inn i n}
  | _ => none

def poll (b : Board σ) (s : Sys σ) : Sys σ :=
  if s.fw.outBusy = false ∧ s.fw.inBusy = false then
    {s with fw := mainLoop b s.fw,
            executed := Function.update s.executed s.outTag (some (pass b s.fw).log),
            inTag := if (mainLoop b s.fw).inBusy then s.outTag else s.inTag}
  else {s with fw := mainLoop b s.fw}

def take (flush : Bool) (s : Sys σ) : Option (Sys σ) :=
  match s.host,answer s.fw with
  | .inn i n,some a =>
    if n < a.length then
      some {s with host := .idle, fw := {s.fw with inBusy := !flush},
                   rbuf := store s.rbuf 0 (a.take n)}
    else
      some {s with host := .idle, fw := {s.fw with inBusy := false}, rbuf := store s.rbuf 0 a,
                   handed := s.handed ++ [(i,load (store s.rbuf 0 a) 0 n)]}
  | _,_ => none

def step (b : Board σ) (s : Sys σ) : Action → Option (Sys σ)
  | .start t =>
    match s.host with
    | .idle => some {s with host := .out s.next t, next := s.next + 1}
    | _ => none
  | .accept => accept s
  | .outDone => outDone s
  | .giveUp =>
    match s.host with
    | .idle => none
    | _ => some {s with host := .idle}
  | .poll => some (poll b s)
  | .take flush => take flush s

def Sys.begin (fw : Fw σ) (rbuf : Mem Byte) : Sys σ where
  fw := {fw with outBusy := true, inBusy := false}
  host := .idle
  next := 0
  rbuf := rbuf
  outTag := 0
  inTag := 0
  executed := fun _ => none
  handed := []

/-- The pass over the packet of transfer `i` read exactly the bytes `a`. -/
def ReadBy (executed : ℕ → Option (List Ev)) (i : ℕ) (a : List Byte) : Prop :=
  ∃ log adrs, executed i = some log ∧ Ev.i2cRead adrs a.length true a ∈ log

/-- Every caller was handed the bytes that its own packet read. -/
def Own (s : Sys σ) : Prop := ∀ p ∈ s.handed, ReadBy s.executed p.1 p.2

/-- No abandoned transfer leaves an answer behind: it is not given up while its answer
waits in EP1IN, and its packet gives no answer when it is polled only afterwards. -/
def Clean (b : Board σ) (s : Sys σ) : Action → Prop
  | .giveUp => ∀ n, expects s.host = some (s.inTag,n) → answer s.fw = none
  | .poll => (∀ n, expects s.host ≠ some (s.outTag,n)) → s.fw.inBusy = false →
      answer (mainLoop b s.fw) = none
  | _ => True

structure Inv (s : Sys σ) : Prop where
  fresh : ∀ i, s.next ≤ i → s.executed i = none
  out : ∀ i t, s.host = .out i t →
    i < s.next ∧ s.executed i = none ∧ (s.fw.outBusy = false → s.outTag ≠ i)
  waiting : s.fw.outBusy = false → s.outTag < s.next ∧ s.executed s.outTag = none ∧
    ∃ t : Request, packet s.fw = t.1.packet ∧
      ∀ n, expects s.host = some (s.outTag,n) → rlen t.1 = some n
  armed : ∀ a, answer s.fw = some a →
    expects s.host = some (s.inTag,a.length) ∧ ReadBy s.executed s.inTag a
  own : Own s

theorem inv_begin (fw : Fw σ) (rbuf : Mem Byte) : Inv (Sys.begin fw rbuf) where
  fresh _ _ := rfl
  out i t h := by cases h
  waiting h := by cases h
  armed a h := by cases h
  own p hp := by cases hp

/-- What a poll answers is what the packet it executes reads. -/
theorem answer_own (b : Board σ) {fw : Fw σ} (ho : fw.outBusy = false) (hi : fw.inBusy = false)
    {t : Transaction} (h : t.Accepted) (hp : packet fw = t.packet) {a : List Byte}
    (ha : answer (mainLoop b fw) = some a) :
    rlen t = some a.length ∧ ∃ adrs, Ev.i2cRead adrs a.length true a ∈ (pass b fw).log := by
  have hlog : (pass b fw).log = (effect b fw.core t.packet).log := by
    have hr := (pass_ran b fw).log
    rw [hp] at hr
    exact hr
  by_cases hne : (effect b fw.core t.packet).answer = []
  · rw [answer_mainLoop b ho hi (by rw [hp,hne]; decide),hp,if_pos hne] at ha
    cases ha
  · obtain ⟨m,r,rfl,hl,hm⟩ := effect_answer b fw.core h hne
    obtain ⟨_,_,_,_,_,_,_,_,hr⟩ := h
    rw [answer_mainLoop b ho hi (by rw [hp,hl]; omega),hp,if_neg hne,Option.some.injEq] at ha
    subst ha
    exact ⟨by rw [rlen,hl],_,by rw [hlog,hl]; exact hm⟩

theorem inv_poll (b : Board σ) {s : Sys σ} (hs : Inv s) (hc : Clean b s .poll) :
    Inv (poll b s) := by
  by_cases hr : s.fw.outBusy = false ∧ s.fw.inBusy = false
  · obtain ⟨ho,hi⟩ := hr
    obtain ⟨hlt,hnone,t,hp,hn⟩ := hs.waiting ho
    obtain ⟨hcore,hout⟩ := mainLoop_ready b ho hi
    have hne : ∀ i log, s.executed i = some log → i ≠ s.outTag := by
      rintro i log hl rfl
      simp [hnone] at hl
    have hown : ∀ i a, ReadBy s.executed i a →
        ReadBy (Function.update s.executed s.outTag (some (pass b s.fw).log)) i a := by
      rintro i a ⟨log,adrs,hl,hm⟩
      exact ⟨log,adrs,by rw [Function.update_of_ne (hne i log hl)]; exact hl,hm⟩
    rw [poll,if_pos ⟨ho,hi⟩]
    refine ⟨fun i hle => ?_,fun i t' hh => ?_,fun hb => ?_,fun a ha => ?_,fun p hm => ?_⟩
    · have hlei : s.next ≤ i := hle
      exact (Function.update_of_ne (by omega) _ _).trans (hs.fresh i hle)
    · obtain ⟨h₁,h₂,h₃⟩ := hs.out i t' hh
      refine ⟨h₁,(Function.update_of_ne (h₃ ho).symm _ _).trans h₂,fun hb => ?_⟩
      simp [hout] at hb
    · simp [hout] at hb
    · obtain ⟨hl,adrs,hm⟩ := answer_own b ho hi t.2 hp ha
      have hex : ∃ n, expects s.host = some (s.outTag,n) := by
        by_contra hno
        have hnn := hc (fun n he => hno ⟨n,he⟩) hi
        rw [show answer (mainLoop b s.fw) = some a from ha] at hnn
        cases hnn
      obtain ⟨n,he⟩ := hex
      have hna : n = a.length := by
        have hrl := hn n he
        rw [hl,Option.some.injEq] at hrl
        exact hrl.symm
      have hb : (mainLoop b s.fw).inBusy = true := by
        by_contra hb
        rw [answer,if_neg hb] at ha
        cases ha
      simp only [hb,if_true]
      exact ⟨by rw [he,hna],_,adrs,Function.update_self _ _ _,hm⟩
    · exact hown p.1 p.2 (hs.own p hm)
  · rw [poll,if_neg hr,mainLoop_blocked b hr]
    exact hs

theorem armed_none {s : Sys σ} (hs : Inv s) (he : expects s.host = none) :
    answer s.fw = none := by
  cases ha : answer s.fw with
  | none => rfl
  | some a =>
    have h := (hs.armed a ha).1
    rw [he] at h
    cases h

theorem inv_accept {s s' : Sys σ} (hs : Inv s) (h : accept s = some s') : Inv s' := by
  cases hh : s.host with
  | out i t =>
    simp only [accept,hh,Option.ite_none_right_eq_some,Option.some.injEq] at h
    obtain ⟨_,rfl⟩ := h
    obtain ⟨hlt,hnone,_⟩ := hs.out i t hh
    have ha := armed_none hs (by rw [hh]; rfl)
    refine ⟨hs.fresh,nofun,fun _ => ⟨hlt,hnone,t,packet_deliver s.fw (packet_lt t.2),?_⟩,?_,
      hs.own⟩
    · intro n he
      cases hr : rlen t.1 <;> simp [expects,hr] at he
      rw [he]
    · intro a ha'
      exact absurd (ha.symm.trans ha') nofun
  | _ => simp [accept,hh] at h

theorem inv_outDone {s s' : Sys σ} (hs : Inv s) (h : outDone s = some s') : Inv s' := by
  cases hh : s.host with
  | taken i t =>
    simp only [outDone,hh,Option.some.injEq] at h
    subst h
    have he : ∀ p : Phase, (p = match rlen t.1 with
        | none => Phase.idle
        | some n => Phase.inn i n) → expects p = expects s.host ∧ ∀ i t, p ≠ .out i t := by
      rintro p rfl
      rw [hh]
      cases hr : rlen t.1 <;> simp [expects,hr]
    obtain ⟨he,hout⟩ := he _ rfl
    refine ⟨hs.fresh,fun i' t' h' => absurd h' (hout i' t'),fun ho => ?_,fun a ha => ?_,hs.own⟩
    · simp only [he]
      exact hs.waiting ho
    · simp only [he]
      exact hs.armed a ha
  | _ => simp [outDone,hh] at h

theorem inv_idle {s s' : Sys σ} (hs : Inv s) (hh : s'.host = .idle) (ha : answer s'.fw = none)
    (hn : s'.next = s.next) (he : s'.executed = s.executed) (ho : s'.outTag = s.outTag)
    (hb : s'.fw.outBusy = s.fw.outBusy) (hp : packet s'.fw = packet s.fw) (hown : Own s') :
    Inv s' := by
  refine ⟨?_,?_,?_,?_,hown⟩
  · rw [hn,he]
    exact hs.fresh
  · intro i t h
    rw [hh] at h
    cases h
  · intro hb'
    obtain ⟨h₁,h₂,t,h₃,_⟩ := hs.waiting (hb.symm.trans hb')
    refine ⟨by rwa [hn,ho],by rwa [he,ho],t,hp.trans h₃,fun n hx => ?_⟩
    rw [hh] at hx
    cases hx
  · intro a ha'
    exact absurd (ha.symm.trans ha') nofun

/-- A successful IN transfer takes the answer of its own packet, whole. -/
theorem inv_take {s s' : Sys σ} {flush : Bool} (hs : Inv s) (h : take flush s = some s') :
    Inv s' := by
  cases hh : s.host with
  | inn i n =>
    cases ha : answer s.fw with
    | none => simp [take,hh,ha] at h
    | some a =>
      obtain ⟨he,hread⟩ := hs.armed a ha
      rw [hh,expects,Option.some.injEq,Prod.mk.injEq] at he
      obtain ⟨rfl,rfl⟩ := he
      simp only [take,hh,ha,lt_irrefl,if_false,Option.some.injEq,load_store] at h
      subst h
      refine inv_idle hs rfl rfl rfl rfl rfl rfl rfl fun p hp => ?_
      rcases List.mem_append.mp hp with hp | hp
      · exact hs.own p hp
      · rw [List.mem_singleton.mp hp]
        exact hread
  | _ => simp [take,hh] at h

theorem inv_step (b : Board σ) {s s' : Sys σ} {a : Action} (hs : Inv s) (hc : Clean b s a)
    (h : step b s a = some s') : Inv s' := by
  cases a with
  | start t =>
    cases hh : s.host with
    | idle =>
      simp only [step,hh,Option.some.injEq] at h
      subst h
      have ha := armed_none hs (by rw [hh]; rfl)
      refine ⟨fun i hle => hs.fresh i (Nat.le_of_succ_le hle),fun i t' h' => ?_,fun ho => ?_,
        fun a ha' => absurd (ha.symm.trans ha') nofun,hs.own⟩
      · obtain ⟨rfl,rfl⟩ := Phase.out.inj h'
        exact ⟨Nat.lt_succ_self _,hs.fresh _ le_rfl,fun ho => (hs.waiting ho).1.ne⟩
      · obtain ⟨h₁,h₂,t',h₃,_⟩ := hs.waiting ho
        exact ⟨Nat.lt_succ_of_lt h₁,h₂,t',h₃,nofun⟩
    | _ => simp [step,hh] at h
  | accept => exact inv_accept hs h
  | outDone => exact inv_outDone hs h
  | giveUp =>
    have ha : answer s.fw = none := by
      cases ha : answer s.fw with
      | none => rfl
      | some a => exact ha.symm.trans (hc _ (hs.armed a ha).1)
    have hi : s' = {s with host := .idle} := by
      cases hh : s.host <;> simp [step,hh] at h <;> exact h.symm
    subst hi
    exact inv_idle hs rfl ha rfl rfl rfl rfl rfl hs.own
  | poll =>
    simp only [step,Option.some.injEq] at h
    subst h
    exact inv_poll b hs hc
  | take flush => exact inv_take hs h

/-- In every run in which no abandoned transfer leaves an answer behind, each caller
that was told success was handed the bytes that its own packet read. -/
theorem own_of_clean (b : Board σ) (fw : Fw σ) (rbuf : Mem Byte) {as : List Action} {s : Sys σ}
    (h : Exec (step b) (Sys.begin fw rbuf) as s)
    (hc : Along (Clean b) (step b) (Sys.begin fw rbuf) as) : Own s :=
  (h.invariant_along (fun _ _ _ hi hcl ht => inv_step b hi hcl ht) (inv_begin fw rbuf) hc).own

def request : Request := ⟨.pair selectMsg readMsg,select_accepted⟩

/-- A transfer given up before its packet is taken, and one that is carried out. -/
theorem own_of_clean_sample :
    ∃ s, Exec (step ackBoard) (Sys.begin acking fun _ => 0)
        [.start request,.giveUp,.start request,.accept,.outDone,.poll,.take false] s ∧ Own s := by
  have hr : (run (step ackBoard) (Sys.begin acking fun _ => 0)
      [.start request,.giveUp,.start request,.accept,.outDone,.poll,.take false]).isSome := by
    decide +kernel
  obtain ⟨s,hs⟩ := Option.isSome_iff_exists.mp hr
  refine ⟨s,exec_of_run hs,own_of_clean ackBoard acking (fun _ => 0) (exec_of_run hs) ?_⟩
  refine .cons trivial rfl (.cons (fun n h => nomatch h) rfl (.cons trivial rfl (.cons trivial rfl
    (.cons trivial rfl (.cons (fun h => ?_) rfl ⟨trivial,fun _ _ => trivial⟩)))))
  exact absurd rfl (h 3)

/-- The first transfer is given up before the firmware polls; its answer goes to the
second one, whose packet is not executed yet. -/
theorem stale_sample :
    ∃ s, Exec (step ackBoard) (Sys.begin acking fun _ => 0)
        [.start request,.accept,.outDone,.giveUp,.poll,.start request,.accept,.outDone,
          .take false] s ∧
      s.handed = [(1,[0x00,0x0e,0x47])] ∧ s.executed 1 = none ∧ ¬ Own s := by
  have hr : (run (step ackBoard) (Sys.begin acking fun _ => 0) [.start request,.accept,.outDone,
      .giveUp,.poll,.start request,.accept,.outDone,.take false]).map
        (fun s => (s.handed,s.executed 1)) = some ([(1,[0x00,0x0e,0x47])],none) := by
    decide +kernel
  obtain ⟨s,hs,hd⟩ := Option.map_eq_some_iff.mp hr
  rw [Prod.mk.injEq] at hd
  refine ⟨s,exec_of_run hs,hd.1,hd.2,fun ho => ?_⟩
  obtain ⟨log,adrs,hl,_⟩ := ho (1,[0x00,0x0e,0x47]) (by rw [hd.1]; exact List.mem_singleton_self _)
  simp [hd.2] at hl

end Pairing
end AkbPcr20x
