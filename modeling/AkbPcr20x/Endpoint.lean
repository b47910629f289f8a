import AkbPcr20x.Link
import AkbPcr20x.Transition

/-! Endpoint 1 between firmware and host. `main_loop` is cut at every access to an
endpoint register and at every turn of its command loop, so that the host can act at
any point of it. The lists of packets and answers are read by no step. -/
namespace AkbPcr20x
namespace Endpoint

open Memory MainLoop Command Link Transition

variable {σ : Type}

/-- Where `main_loop` stands: in front of its test of EP1OUTCS or of EP1INCS, in the
command loop, in front of the write to EP1OUTBC or to EP1INBC. -/
inductive Pc
  | poll
  | gate
  | run
  | rearm
  | arm
  deriving DecidableEq

/-- The pass holds the statics and both buffers at all times. -/
structure Sys (σ : Type) where
  pc : Pc
  l : Pass σ
  outBusy : Bool
  inBusy : Bool
  outBc : Byte
  inBc : Byte
  accepted : List (List Byte)
  executed : List (List Byte)
  delivered : List (List Byte)

inductive Action
  | send (pkt : List Byte)
  | fetch
  | tick

def packet (s : Sys σ) : List Byte := load s.l.outBuf 0 s.outBc.toNat

def fresh (s : Sys σ) : Pass σ :=
  {s.l with ap1 := 0, ap2 := 0, cmdCnt := s.outBc, retCnt := 0, turns := 0, aborted := false}

/-- The next piece of `main_loop`, which is called again and again. -/
def tick (b : Board σ) (s : Sys σ) : Sys σ :=
  match s.pc with
  | .poll => if s.outBusy then s else {s with pc := .gate}
  | .gate => if s.inBusy then {s with pc := .poll} else {s with pc := .run, l := fresh s}
  | .run =>
    if s.l.cmdCnt = 0 then
      {s with pc := .rearm, l := s.l.countCmd 1, executed := s.executed ++ [packet s]}
    else {s with l := Pass.turn b (s.l.countCmd 1)}
  | .rearm => {s with pc := .arm, outBusy := true}
  | .arm =>
    if s.l.retCnt ≠ 0 then {s with pc := .poll, inBc := s.l.retCnt, inBusy := true}
    else {s with pc := .poll}

/-- The host sends while EP1OUT is armed and reads while EP1IN is. -/
def step (b : Board σ) (s : Sys σ) : Action → Option (Sys σ)
  | .send pkt =>
    if s.outBusy ∧ pkt.length ≤ 64 then
      some {s with outBusy := false, l := {s.l with outBuf := store s.l.outBuf 0 pkt},
                   outBc := BitVec.ofNat 8 pkt.length, accepted := s.accepted ++ [pkt]}
    else none
  | .fetch =>
    if s.inBusy then
      some {s with inBusy := false, delivered := s.delivered ++ [load s.l.inBuf 0 s.inBc.toNat]}
    else none
  | .tick => some (tick b s)

def Sys.boot (fw : Fw σ) : Sys σ :=
  ⟨.poll,start fw,true,false,fw.outBc,fw.inBc,[],[],[]⟩

/-- What executing packets in order does, with one answer for each packet that has any. -/
structure Served (σ : Type) where
  core : Core σ
  log : List Ev
  answers : List (List Byte)

def ofAnswer (a : List Byte) : List (List Byte) := if a = [] then [] else [a]

def served (b : Board σ) (c : Core σ) : List (List Byte) → Served σ
  | [] => ⟨c,[],[]⟩
  | pkt::pkts =>
    let e := effect b c pkt
    let r := served b e.core pkts
    ⟨r.core,e.log ++ r.log,ofAnswer e.answer ++ r.answers⟩

theorem served_snoc (b : Board σ) (c : Core σ) (pkts : List (List Byte)) (pkt : List Byte) :
    served b c (pkts ++ [pkt]) =
      ⟨(effect b (served b c pkts).core pkt).core,
        (served b c pkts).log ++ (effect b (served b c pkts).core pkt).log,
        (served b c pkts).answers ++ ofAnswer (effect b (served b c pkts).core pkt).answer⟩ := by
  induction pkts generalizing c with
  | nil => simp [served]
  | cons p pkts ih => simp only [List.cons_append,served,ih,List.append_assoc]

theorem ofAnswer_eq (m : Mem Byte) {a : List Byte} (h : a.length < 256) :
    (if BitVec.ofNat 8 a.length = 0 then []
      else [load (store m 0 a) 0 (BitVec.ofNat 8 a.length).toNat]) = ofAnswer a := by
  have hz : BitVec.ofNat 8 a.length = 0 ↔ a = [] := by
    rw [← List.length_eq_zero_iff]
    bv_omega
  simp only [ofAnswer,hz,BitVec.toNat_ofNat,Nat.mod_eq_of_lt h,load_store]

/-- A packet that is accepted and not yet executed. -/
def owed (s : Sys σ) : Bool := !s.outBusy && decide (s.pc ≠ .rearm)

/-- The answer that is not yet taken; behind the command loop it waits to be armed. -/
def waiting (s : Sys σ) : List (List Byte) :=
  if s.inBusy then [load s.l.inBuf 0 s.inBc.toNat]
  else if s.pc = .rearm ∨ s.pc = .arm then
    if s.l.retCnt = 0 then [] else [load s.l.inBuf 0 s.l.retCnt.toNat]
  else []

/-- The command loop is at `l'`, on its way from `l` with a packet of `bc` bytes. -/
structure Running (b : Board σ) (c : Core σ) (log : List Ev) (bc : Byte) (l l' : Pass σ) (n : ℕ) :
    Prop where
  core : l.core = c
  log : l.log = log
  cmdCnt : l.cmdCnt = bc
  ap : l.ap1 = 0 ∧ l.ap2 = 0
  retCnt : l.retCnt = 0
  outBuf : l'.outBuf = l.outBuf
  fuel : l'.cmdCnt.toNat < n
  loop : Pass.loop b n l' = Pass.loop b 256 l

structure Inv (b : Board σ) (c : Core σ) (s : Sys σ) : Prop where
  accepted : s.accepted = s.executed ++ if owed s then [packet s] else []
  small : owed s = true →
    (effect b (served b c s.executed).core (packet s)).answer.length ≤ 64
  outBusy : s.pc = .gate ∨ s.pc = .run ∨ s.pc = .rearm → s.outBusy = false
  inBusy : s.pc = .run ∨ s.pc = .rearm ∨ s.pc = .arm → s.inBusy = false
  core : s.pc ≠ .run →
    s.l.core = (served b c s.executed).core ∧ s.l.log = (served b c s.executed).log
  running : s.pc = .run →
    ∃ l n, Running b (served b c s.executed).core (served b c s.executed).log s.outBc l s.l n
  answers : (served b c s.executed).answers = s.delivered ++ waiting s

variable {b : Board σ} {c : Core σ} {s t : Sys σ}

theorem inv_boot (b : Board σ) (fw : Fw σ) : Inv b fw.core (Sys.boot fw) where
  accepted := rfl
  small h := by cases h
  outBusy h := by rcases h with h | h | h <;> cases h
  inBusy _ := rfl
  core _ := ⟨rfl,rfl⟩
  running h := by cases h
  answers := rfl

/-- EP1OUT is only armed where the firmware is not looking at it. -/
theorem Inv.armed (h : Inv b c s) (ho : s.outBusy = true) :
    (s.pc = .poll ∨ s.pc = .arm) ∧ s.executed = s.accepted := by
  have hp : s.pc = .poll ∨ s.pc = .arm := by
    have hb := h.outBusy
    cases hpc : s.pc <;> simp_all
  refine ⟨hp,?_⟩
  rw [h.accepted,owed,ho]
  simp

theorem inv_send (h : Inv b c s) {pkt : List Byte}
    (hc : (effect b s.l.core pkt).answer.length ≤ 64) (ht : step b s (.send pkt) = some t) :
    Inv b c t := by
  simp only [step] at ht
  split_ifs at ht with hg
  obtain ⟨ho,hl⟩ := hg
  obtain rfl := Option.some.inj ht
  obtain ⟨hp,he⟩ := h.armed ho
  have hrun : s.pc ≠ .run := by rcases hp with hp | hp <;> simp [hp]
  have hrearm : s.pc ≠ .rearm := by rcases hp with hp | hp <;> simp [hp]
  have hgate : s.pc ≠ .gate := by rcases hp with hp | hp <;> simp [hp]
  have hpkt : load (store s.l.outBuf 0 pkt) 0 (BitVec.ofNat 8 pkt.length).toNat = pkt := by
    rw [BitVec.toNat_ofNat,Nat.mod_eq_of_lt (by omega),load_store]
  refine ⟨?_,fun _ => ?_,fun _ => rfl,h.inBusy,h.core,fun hr => absurd hr hrun,h.answers⟩
  · have hw : (!false && decide (s.pc ≠ .rearm)) = true := by simp [hrearm]
    simp only [owed,packet,hw,he,hpkt,if_true]
  · simp only [packet,hpkt]
    rw [← (h.core hrun).1]
    exact hc

theorem inv_fetch (h : Inv b c s) (ht : step b s .fetch = some t) : Inv b c t := by
  simp only [step] at ht
  split_ifs at ht with hi
  obtain rfl := Option.some.inj ht
  have hp : ¬ (s.pc = .run ∨ s.pc = .rearm ∨ s.pc = .arm) := by
    intro hp
    rw [h.inBusy hp] at hi
    cases hi
  have hw : waiting s = [load s.l.inBuf 0 s.inBc.toNat] := if_pos hi
  rw [not_or] at hp
  refine ⟨h.accepted,h.small,h.outBusy,fun _ => rfl,h.core,h.running,?_⟩
  have ha := h.answers
  rw [hw] at ha
  simp only [waiting,hp.2,Bool.false_eq_true,if_false,List.append_nil]
  exact ha

theorem Inv.move (h : Inv b c s) {pc : Pc}
    (ho : pc = .gate ∨ pc = .run ∨ pc = .rearm → s.outBusy = false)
    (hw : owed {s with pc := pc} = owed s) (hwt : waiting {s with pc := pc} = waiting s)
    (hi : pc = .run ∨ pc = .rearm ∨ pc = .arm → s.inBusy = false) (hr : s.pc ≠ .run)
    (hr' : pc ≠ .run) : Inv b c {s with pc := pc} where
  accepted := by
    rw [hw]
    exact h.accepted
  small hn := by
    rw [hw] at hn
    exact h.small hn
  outBusy := ho
  inBusy := hi
  core _ := h.core hr
  running hn := absurd hn hr'
  answers := by
    rw [hwt]
    exact h.answers

theorem inv_poll (h : Inv b c s) (hp : s.pc = .poll) : Inv b c (tick b s) := by
  cases ho : s.outBusy with
  | true => simpa only [tick,hp,ho,if_true] using h
  | false =>
    have ht : tick b s = {s with pc := .gate} := by simp [tick,hp,ho]
    rw [ht]
    exact h.move (fun _ => ho) (by simp [owed,hp,ho]) (by simp [waiting,hp]) (by simp)
      (by simp [hp]) (by simp)

theorem inv_gate (h : Inv b c s) (hp : s.pc = .gate) : Inv b c (tick b s) := by
  have ho := h.outBusy (Or.inl hp)
  cases hi : s.inBusy with
  | true =>
    have ht : tick b s = {s with pc := .poll} := by simp [tick,hp,hi]
    rw [ht]
    exact h.move (fun _ => ho) (by simp [owed,hp,ho]) (by simp [waiting,hp]) (by simp)
      (by simp [hp]) (by simp)
  | false =>
    have ht : tick b s = {s with pc := .run, l := fresh s} := by simp [tick,hp,hi]
    have hw : owed s = true := by simp [owed,hp,ho]
    have hw' : owed {s with pc := .run, l := fresh s} = true := by simp [owed,ho]
    have hacc := h.accepted
    have hsm := h.small hw
    obtain ⟨hcore,hlog⟩ := h.core (by simp [hp])
    rw [hw] at hacc
    rw [ht]
    refine ⟨?_,fun _ => hsm,fun _ => ho,fun _ => hi,fun hn => absurd rfl hn,fun _ => ?_,?_⟩
    · rw [hw']
      exact hacc
    · exact ⟨fresh s,256,hcore,hlog,rfl,⟨rfl,rfl⟩,rfl,rfl,s.outBc.isLt,rfl⟩
    · have hans := h.answers
      simp only [waiting,hp,hi] at hans ⊢
      simpa using hans

theorem tick_done (b : Board σ) (hp : s.pc = .run) (hc : s.l.cmdCnt = 0) : tick b s =
    {s with pc := .rearm, l := s.l.countCmd 1, executed := s.executed ++ [packet s]} := by
  simp only [tick,hp]
  exact if_pos hc

theorem tick_turn (b : Board σ) (hp : s.pc = .run) (hc : ¬ s.l.cmdCnt = 0) :
    tick b s = {s with l := Pass.turn b (s.l.countCmd 1)} := by
  simp only [tick,hp]
  exact if_neg hc

/-- The end of the command loop: the packet is executed, and its answer is in EP1IN. -/
theorem inv_done (h : Inv b c s) (hp : s.pc = .run) (hc : s.l.cmdCnt = 0) :
    Inv b c (tick b s) := by
  have ho := h.outBusy (Or.inr (Or.inl hp))
  have hi := h.inBusy (Or.inl hp)
  have hw : owed s = true := by simp [owed,hp,ho]
  have hacc := h.accepted
  have hsm := h.small hw
  have hans := h.answers
  rw [hw] at hacc
  simp only [waiting,hp,hi] at hans
  obtain ⟨l,n,hr⟩ := h.running hp
  obtain ⟨m,rfl⟩ : ∃ m, n = m+1 := ⟨n-1,by have := hr.fuel; omega⟩
  have hl := hr.loop
  rw [Pass.loop,if_pos hc] at hl
  have hrest : rest l = packet s := by
    rw [rest,packet,hr.ap.1,hr.cmdCnt,hr.outBuf]
  have hran : Ran l (s.l.countCmd 1) (effect b (served b c s.executed).core (packet s))
      (commands.decode (packet s)).2 := by
    rw [hl,effect,← hr.core,← hrest]
    exact loop_ran b 256 l l.cmdCnt.isLt
  rw [tick_done b hp hc]
  refine ⟨?_,fun hn => by simp [owed] at hn,fun _ => ho,fun _ => hi,fun _ => ?_,
    fun hn => (by cases hn),?_⟩
  · rw [hacc]
    simp [owed]
  · rw [served_snoc]
    exact ⟨hran.core,hran.log.trans (by rw [hr.log])⟩
  · have hin := hran.inBuf
    have hret := hran.retCnt
    rw [hr.ap.2] at hin
    rw [hr.retCnt,show ∀ x : Byte, 0 + x = x from BitVec.zero_add] at hret
    rw [served_snoc,← ofAnswer_eq l.inBuf (by omega),← hin,← hret,hans]
    simp [waiting,hi]

theorem inv_turn (h : Inv b c s) (hp : s.pc = .run) (hc : ¬ s.l.cmdCnt = 0) :
    Inv b c (tick b s) := by
  have ho := h.outBusy (Or.inr (Or.inl hp))
  have hi := h.inBusy (Or.inl hp)
  have hw : owed s = true := by simp [owed,hp,ho]
  have hw' : owed {s with l := Pass.turn b (s.l.countCmd 1)} = true := hw
  have hout := turn_packet b hc
  obtain ⟨l,n,hr⟩ := h.running hp
  obtain ⟨m,rfl⟩ : ∃ m, n = m+1 := ⟨n-1,by have := hr.fuel; omega⟩
  rw [tick_turn b hp hc]
  refine ⟨?_,fun _ => ?_,fun _ => ho,fun _ => hi,fun hn => absurd hp hn,fun _ => ?_,?_⟩
  · have hacc := h.accepted
    rw [hw] at hacc
    rw [hw']
    simp only [packet,hout]
    exact hacc
  · simp only [packet,hout]
    exact h.small hw
  · refine ⟨l,m,hr.core,hr.log,hr.cmdCnt,hr.ap,hr.retCnt,hout.1.trans hr.outBuf,?_,?_⟩
    · have := hr.fuel
      have := hout.2
      simp only
      omega
    · have hl := hr.loop
      rwa [Pass.loop,if_neg hc] at hl
  · have hans := h.answers
    simp only [waiting,hp,hi] at hans ⊢
    simpa using hans

theorem inv_run (h : Inv b c s) (hp : s.pc = .run) : Inv b c (tick b s) := by
  by_cases hc : s.l.cmdCnt = 0
  · exact inv_done h hp hc
  · exact inv_turn h hp hc

/-- EP1OUT is armed before EP1IN: the answer still waits to be armed. -/
theorem inv_rearm (h : Inv b c s) (hp : s.pc = .rearm) : Inv b c (tick b s) := by
  have hi := h.inBusy (Or.inr (Or.inl hp))
  have hw : owed s = false := by simp [owed,hp]
  have ht : tick b s = {s with pc := .arm, outBusy := true} := by simp only [tick,hp]
  have hacc := h.accepted
  have hans := h.answers
  rw [hw] at hacc
  rw [ht]
  refine ⟨hacc,nofun,fun hn => ?_,fun _ => hi,fun _ => h.core (by simp [hp]),nofun,?_⟩
  · rcases hn with hn | hn | hn <;> cases hn
  · simp only [waiting,hp,hi] at hans ⊢
    simpa using hans

theorem inv_arm (h : Inv b c s) (hp : s.pc = .arm) : Inv b c (tick b s) := by
  have hi := h.inBusy (Or.inr (Or.inr hp))
  have hacc := h.accepted
  have hsm := h.small
  have hans := h.answers
  have hw : owed s = !s.outBusy := by simp [owed,hp]
  by_cases hr : s.l.retCnt = 0
  · have ht : tick b s = {s with pc := .poll} := by
      simp only [tick,hp]
      exact if_neg (not_not.mpr hr)
    rw [ht]
    exact h.move (by simp) (by simp [owed,hp]) (by simp [waiting,hp,hi,hr]) (by simp) (by simp [hp])
      (by simp)
  · have ht : tick b s = {s with pc := .poll, inBc := s.l.retCnt, inBusy := true} := by
      simp only [tick,hp]
      exact if_pos hr
    rw [ht]
    refine ⟨?_,?_,fun hn => ?_,fun hn => ?_,fun _ => h.core (by simp [hp]),nofun,?_⟩
    · rw [hw] at hacc
      simpa [owed,packet] using hacc
    · rw [hw] at hsm
      simpa [owed,packet] using hsm
    · rcases hn with hn | hn | hn <;> cases hn
    · rcases hn with hn | hn | hn <;> cases hn
    · simp only [waiting,hp,hi] at hans ⊢
      rw [if_neg hr] at hans
      simpa using hans

def Fits (b : Board σ) (s : Sys σ) : Action → Prop
  | .send pkt => (effect b s.l.core pkt).answer.length ≤ 64
  | _ => True

theorem inv_step (s : Sys σ) (a : Action) (t : Sys σ) (h : Inv b c s) (hc : Fits b s a)
    (ht : step b s a = some t) : Inv b c t := by
  cases a with
  | send pkt => exact inv_send h hc ht
  | fetch => exact inv_fetch h ht
  | tick =>
    obtain rfl := Option.some.inj ht
    cases hp : s.pc with
    | poll => exact inv_poll h hp
    | gate => exact inv_gate h hp
    | run => exact inv_run h hp
    | rearm => exact inv_rearm h hp
    | arm => exact inv_arm h hp

/-- What endpoint 1 guarantees in a state: what was accepted is executed in order, but for
a packet still owed; what the executed packets answer is delivered, but for an answer still
waiting; and EP1IN is left alone as long as it holds one. -/
structure Disciplined (b : Board σ) (c : Core σ) (s : Sys σ) : Prop where
  accepted : s.accepted = s.executed ++ if owed s then [packet s] else []
  core : s.pc ≠ .run →
    s.l.core = (served b c s.executed).core ∧ s.l.log = (served b c s.executed).log
  answers : (served b c s.executed).answers = s.delivered ++ waiting s
  single : (waiting s).length ≤ 1
  untouched : ∀ a t, step b s a = some t → s.inBusy = true →
    t.l.inBuf = s.l.inBuf ∧ t.inBc = s.inBc

theorem Inv.untouched (h : Inv b c s) {a : Action} (ht : step b s a = some t)
    (hi : s.inBusy = true) : t.l.inBuf = s.l.inBuf ∧ t.inBc = s.inBc := by
  have hb := h.inBusy
  cases a with
  | send pkt =>
    simp only [step] at ht
    split_ifs at ht
    obtain rfl := Option.some.inj ht
    exact ⟨rfl,rfl⟩
  | fetch =>
    simp only [step] at ht
    split_ifs at ht
    obtain rfl := Option.some.inj ht
    exact ⟨rfl,rfl⟩
  | tick =>
    obtain rfl := Option.some.inj ht
    cases hp : s.pc with
    | poll =>
      simp only [tick,hp]
      split_ifs <;> exact ⟨rfl,rfl⟩
    | gate =>
      simp only [tick,hp]
      split_ifs
      exact ⟨rfl,rfl⟩
    | _ => simp [hp,hi] at hb

theorem Inv.disciplined (h : Inv b c s) : Disciplined b c s where
  accepted := h.accepted
  core := h.core
  answers := h.answers
  single := by
    unfold waiting
    split_ifs <;> simp
  untouched _ _ := h.untouched

/-- Every state of every run keeps the discipline. -/
theorem disciplined_run (b : Board σ) (fw : Fw σ) {as : List Action} {s : Sys σ}
    (h : Exec (step b) (Sys.boot fw) as s) (hc : Along (Fits b) (step b) (Sys.boot fw) as) :
    Disciplined b fw.core s :=
  (h.invariant_along inv_step (inv_boot b fw) hc).disciplined

def pinBoard : Board Unit := ⟨fun _ _ s => (false,s),fun _ _ m s => (false,m,s),
  fun _ => ⟨0,0,0,0⟩,fun _ s => (0,s)⟩

/-- The second packet arrives between the writes to EP1OUTBC and to EP1INBC. -/
theorem disciplined_run_sample :
    ∃ s, Exec (step pinBoard) (Sys.boot (idle ()))
        [.send [0x57],.tick,.tick,.tick,.tick,.tick,.send [0x57],.tick,.fetch] s ∧
      Disciplined pinBoard (idle ()).core s := by
  have hr : (run (step pinBoard) (Sys.boot (idle ()))
      [.send [0x57],.tick,.tick,.tick,.tick,.tick,.send [0x57],.tick,.fetch]).isSome := by
    decide
  have hf (c : Core Unit) : (effect pinBoard c [0x57]).answer.length ≤ 64 := by
    rw [effect,commands.decode_ok (q:=[]) rfl,commands.decode_error (e:=.done) rfl]
    exact (by decide : 1 ≤ 64)
  obtain ⟨s,hs⟩ := Option.isSome_iff_exists.mp hr
  refine ⟨s,exec_of_run hs,disciplined_run pinBoard (idle ()) (exec_of_run hs) ?_⟩
  exact .cons (hf _) rfl (.cons trivial rfl (.cons trivial rfl (.cons trivial rfl (.cons trivial rfl
    (.cons trivial rfl (.cons (hf _) rfl (.cons trivial rfl ⟨trivial,fun _ _ => trivial⟩)))))))

def view (s : Sys σ) : Fw σ :=
  ⟨s.l.core,s.outBusy,s.inBusy,s.l.outBuf,s.outBc,s.l.inBuf,s.inBc⟩

theorem loop_outBuf (b : Board σ) (n : ℕ) (l : Pass σ) : (Pass.loop b n l).outBuf = l.outBuf := by
  induction n generalizing l with
  | zero => rfl
  | succ n ih =>
    rw [Pass.loop]
    split_ifs with hc
    · rfl
    · rw [ih,(turn_packet b hc).1]

theorem run_ticks (b : Board σ) (n : ℕ) (s : Sys σ) (hp : s.pc = .run)
    (hn : s.l.cmdCnt.toNat < n) : ∃ k, Exec (step b) s (List.replicate k .tick)
      {s with pc := .rearm, l := Pass.loop b n s.l, executed := s.executed ++ [packet s]} := by
  induction n generalizing s with
  | zero => omega
  | succ n ih =>
    rw [Pass.loop]
    by_cases hc : s.l.cmdCnt = 0
    · refine ⟨1,Exec.succ ?_ (Exec.refl _)⟩
      rw [step,tick_done b hp hc,if_pos hc]
    · have hout := turn_packet b hc
      obtain ⟨k,hk⟩ := ih {s with l := Pass.turn b (s.l.countCmd 1)} hp (by simp only; omega)
      refine ⟨k+1,Exec.succ (t:={s with l := Pass.turn b (s.l.countCmd 1)}) ?_ ?_⟩
      · rw [step,tick_turn b hp hc]
      · rw [if_neg hc]
        simpa only [packet,hout.1] using hk

/-- The two passes differ only in the events of the passes before. -/
theorem loop_fresh (b : Board σ) (s : Sys σ) :
    (Pass.loop b 256 (fresh s)).core = (pass b (view s)).core ∧
      (Pass.loop b 256 (fresh s)).inBuf = (pass b (view s)).inBuf ∧
      (Pass.loop b 256 (fresh s)).retCnt = (pass b (view s)).retCnt := by
  have hf := loop_ran b 256 (fresh s) s.outBc.isLt
  have hp := pass_ran b (view s)
  exact ⟨hf.core.trans hp.core.symm,hf.inBuf.trans hp.inBuf.symm,hf.retCnt.trans hp.retCnt.symm⟩

theorem poll_ticks (b : Board σ) (s : Sys σ) (hp : s.pc = .poll) :
    ∃ k t, Exec (step b) s (List.replicate (k+1) .tick) t ∧ t.pc = .poll ∧
      view t = mainLoop b (view s) := by
  cases ho : s.outBusy with
  | true =>
    have h₁ : step b s .tick = some s := by simp [step,tick,hp,ho]
    refine ⟨0,s,Exec.succ h₁ (Exec.refl s),hp,?_⟩
    rw [mainLoop_blocked b (by simp [view,ho])]
  | false =>
    have h₁ : step b s .tick = some {s with pc := .gate} := by simp [step,tick,hp,ho]
    cases hi : s.inBusy with
    | true =>
      have h₂ : step b {s with pc := .gate} .tick = some {s with pc := .poll} := by
        simp [step,tick,hi]
      refine ⟨1,{s with pc := .poll},Exec.succ h₁ (Exec.succ h₂ (Exec.refl _)),rfl,?_⟩
      rw [mainLoop_blocked b (by simp [view,hi])]
      rfl
    | false =>
      have h₂ : step b {s with pc := .gate} .tick = some {s with pc := .run, l := fresh s} := by
        simp [step,tick,hi,fresh]
      obtain ⟨k,hk⟩ := run_ticks b 256 {s with pc := .run, l := fresh s} rfl s.outBc.isLt
      obtain ⟨hcore,hin,hret⟩ := loop_fresh b s
      have hout := loop_outBuf b 256 (fresh s)
      rw [mainLoop_free b (f:=view s) ho hi,← hcore,← hin,← hret]
      generalize Pass.loop b 256 (fresh s) = l at hk hout ⊢
      let r : Sys σ := {s with pc := .arm, outBusy := true, l := l,
                               executed := s.executed ++ [packet {s with pc := .run, l := fresh s}]}
      have hlen : List.replicate (k+3+1) Action.tick =
          [.tick,.tick] ++ (List.replicate k .tick ++ [.tick,.tick]) := by
        rw [show [Action.tick,.tick] = List.replicate 2 .tick from rfl,
          List.replicate_append_replicate,List.replicate_append_replicate]
        congr 1
        omega
      have hrun {t : Sys σ} (ht : step b r .tick = some t) :
          Exec (step b) s (List.replicate (k+3+1) .tick) t := by
        rw [hlen]
        exact (Exec.succ h₁ (Exec.succ h₂ (Exec.refl _))).append
          (hk.append (Exec.succ (t:=r) rfl (Exec.succ ht (Exec.refl t))))
      by_cases hz : l.retCnt ≠ 0
      · refine ⟨k+3,_,hrun (t:={r with pc := .poll, inBc := l.retCnt, inBusy := true}) ?_,rfl,?_⟩
        · simp only [step,tick,r]
          rw [if_pos hz]
        · rw [if_pos hz]
          simp only [view,r,hout,fresh]
      · refine ⟨k+3,_,hrun (t:={r with pc := .poll}) ?_,rfl,?_⟩
        · simp only [step,tick,r]
          rw [if_neg hz]
        · rw [if_neg hz]
          simp only [view,r,hout,fresh]

end Endpoint
end AkbPcr20x
