import AkbPcr20x.I2cOutcome
import AkbPcr20x.Link

/-! The diagnostic counters over whole runs of the firmware. What a run did on the
I2C bus is a list of outcomes, one for each I2C command executed; the six counters
are tallies of that list, and `CMD_I2C_STATUS` reports them. -/
namespace AkbPcr20x
namespace Diagnostics

open MainLoop Command I2cEngine I2cBus I2cCall I2cOutcome Link

/-- An I2C command as it went: what `i2c.c` returned and what happened on the bus. -/
structure Outcome where
  dir : Dir
  ret : Bool
  bus : List BusEv

/-- The call returned FALSE because a limit was reached. -/
def Outcome.gaveUp (o : Outcome) : Bool := !o.ret && decide (Limit 0 o.bus)

def outcome (pins : Sfr → Byte) (c : Core Ctl) : Cmd → List Outcome
  | .i2cRead adrs len =>
    let r := (board pins).i2cRead adrs len.toNat c.i2cbf c.world
    [⟨.read,r.1,events c.world r.2.2⟩]
  | .i2cWrite adrs data =>
    let r := (board pins).i2cWrite adrs data c.world
    [⟨.write,r.1,events c.world r.2⟩]
  | _ => []

def outcomes (pins : Sfr → Byte) (c : Core Ctl) : List Cmd → List Outcome
  | [] => []
  | k::ks => outcome pins c k ++ outcomes pins (k.run (board pins) c).core ks

structure Tally where
  berr : ℕ
  timeout : ℕ
  errcnt : ℕ

def Tally.add (t u : Tally) : Tally := ⟨t.berr + u.berr,t.timeout + u.timeout,t.errcnt + u.errcnt⟩

/-- Bus errors of all attempts, calls given up at a limit, and calls that failed. -/
def tally (dir : Dir) (os : List Outcome) : Tally :=
  let os := os.filter (·.dir = dir)
  ⟨(os.map (·.bus.count .berr)).sum,os.countP (·.gaveUp),os.countP (!·.ret)⟩

theorem tally_append (dir : Dir) (os os' : List Outcome) :
    tally dir (os ++ os') = (tally dir os).add (tally dir os') := by
  simp [tally,Tally.add]

/-- The counters of a direction, in both files of the firmware. -/
structure Counters where
  berr : Word
  timeout : Word
  errcnt : Word

def counters (c : Core Ctl) : Dir → Counters
  | .read => ⟨c.world.diag.berrReadCnt,c.world.diag.timeoutReadCnt,c.i2cReadErrcnt⟩
  | .write => ⟨c.world.diag.berrWriteCnt,c.world.diag.timeoutWriteCnt,c.i2cWriteErrcnt⟩

def Counters.plus (n : Counters) (t : Tally) : Counters :=
  ⟨n.berr + BitVec.ofNat 16 t.berr,n.timeout + BitVec.ofNat 16 t.timeout,
    n.errcnt + BitVec.ofNat 16 t.errcnt⟩

theorem Counters.plus_add (n : Counters) (t u : Tally) : n.plus (t.add u) = (n.plus t).plus u := by
  simp [Counters.plus,Tally.add,BitVec.ofNat_add,BitVec.add_assoc]

@[simp] theorem Counters.plus_nil (n : Counters) (dir : Dir) : n.plus (tally dir []) = n := by
  simp [Counters.plus,tally]

theorem tally_singleton (dir : Dir) (o : Outcome) :
    tally dir [o] =
      if o.dir = dir then ⟨o.bus.count .berr,o.gaveUp.toNat,(!o.ret).toNat⟩ else ⟨0,0,0⟩ := by
  by_cases hd : o.dir = dir
  · simp only [tally,List.filter_singleton,hd,decide_true,if_true]
    cases hg : o.gaveUp <;> cases hr : o.ret <;> simp [hg,hr]
  · simp [tally,hd]

def outcomeOf (q : Request) (s : Ctl) : Outcome := ⟨q.dir,(q.call s).1.getD false,q.bus s⟩

theorem outcomeOf_call (q : Request) (s : Ctl) :
    Call q.attempt q.tries 0 (outcomeOf q s).ret (outcomeOf q s).bus := by
  obtain ⟨r,hr,hc,_⟩ := q.call_spec s
  simp only [outcomeOf,hr,Option.getD_some]
  exact hc

/-- What a call counts, by its outcome; a call at a limit always returns FALSE. -/
theorem outcomeOf_diag (q : Request) (s : Ctl) :
    (q.call s).2.diag =
      bump q.dir ((outcomeOf q s).bus.count .berr) (outcomeOf q s).gaveUp.toNat s.diag := by
  obtain ⟨r,_,_,hd⟩ := q.call_spec s
  have hc := outcomeOf_call q s
  rw [hd]
  by_cases hl : Limit 0 (q.bus s)
  · have hg : (outcomeOf q s).gaveUp = true := by
      rw [Outcome.gaveUp,hc.limit_false (fun _ _ => q.attempt_shape) (by decide) hl]
      exact decide_eq_true hl
    rw [if_pos hl,hg]
    rfl
  · have hg : (outcomeOf q s).gaveUp = false := by
      rw [Outcome.gaveUp,Bool.and_eq_false_iff]
      exact Or.inr (decide_eq_false hl)
    rw [if_neg hl,hg]
    rfl

theorem counters_call (q : Request) (c c' : Core Ctl) (dir : Dir)
    (hw : c'.world = (q.call c.world).2)
    (he : ∀ dir, (counters c' dir).errcnt = (counters c dir).errcnt +
      if q.dir = dir then BitVec.ofNat 16 (!(outcomeOf q c.world).ret).toNat else 0) :
    counters c' dir = (counters c dir).plus (tally dir [outcomeOf q c.world]) := by
  have hd := outcomeOf_diag q c.world
  have he' := he dir
  have hq : (outcomeOf q c.world).dir = q.dir := rfl
  rw [← hw] at hd
  rw [tally_singleton,hq]
  cases hdir : q.dir <;> cases dir <;>
    simp_all [counters,Counters.plus,bump]

theorem run_counters (pins : Sfr → Byte) (c : Core Ctl) (k : Cmd) (dir : Dir) :
    counters (k.run (board pins) c).core dir =
      (counters c dir).plus (tally dir (outcome pins c k)) := by
  cases k with
  | i2cRead adrs len =>
    apply counters_call (.read adrs len.toNat c.i2cbf)
    · simp only [Cmd.run,runRead]
      split <;> rfl
    · intro dir
      change _ = _ + if Dir.read = dir then
        BitVec.ofNat 16 (!((board pins).i2cRead adrs len.toNat c.i2cbf c.world).1).toNat else 0
      simp only [Cmd.run,runRead]
      cases dir <;> split <;> simp_all [counters]
  | i2cWrite adrs data =>
    apply counters_call (.write adrs data [])
    · simp only [Cmd.run,runWrite]
      split <;> rfl
    · intro dir
      change _ = _ + if Dir.write = dir then
        BitVec.ofNat 16 (!((board pins).i2cWrite adrs data c.world).1).toNat else 0
      simp only [Cmd.run,runWrite]
      cases dir <;> split <;> simp_all [counters]
  | _ =>
    cases dir <;> simp [outcome,Cmd.run,runStart,Effect.ofWrites,setSfrs,afterPins,board,counters]

theorem runAll_counters (pins : Sfr → Byte) (c : Core Ctl) (ks : List Cmd) (dir : Dir) :
    counters (runAll (board pins) c ks).core dir =
      (counters c dir).plus (tally dir (outcomes pins c ks)) := by
  induction ks generalizing c with
  | nil => rw [outcomes,Counters.plus_nil,runAll]
  | cons k ks ih =>
    rw [outcomes,tally_append,Counters.plus_add,← run_counters]
    exact ih _

/-- What every outcome of a run obeys: a limit makes its call fail, and a call that
ends with a byte not acknowledged fails without a limit. -/
theorem outcomes_fail (pins : Sfr → Byte) (c : Core Ctl) (ks : List Cmd) {o : Outcome}
    (ho : o ∈ outcomes pins c ks) : (Limit 0 o.bus → o.ret = false) ∧
      (.nack ∈ lastAttempt o.bus → o.ret = false ∧ ¬ Limit 0 o.bus) := by
  have hq (q : Request) (s : Ctl) : (Limit 0 (outcomeOf q s).bus → (outcomeOf q s).ret = false) ∧
      (.nack ∈ lastAttempt (outcomeOf q s).bus →
        (outcomeOf q s).ret = false ∧ ¬ Limit 0 (outcomeOf q s).bus) := by
    have hc := outcomeOf_call q s
    exact ⟨hc.limit_false (fun _ _ => q.attempt_shape) (by decide),
      hc.plain_nack fun _ _ => q.attempt_shape⟩
  induction ks generalizing c with
  | nil => exact absurd ho List.not_mem_nil
  | cons k ks ih =>
    rcases List.mem_append.mp ho with hk | hr
    · cases k with
      | i2cRead adrs len =>
        obtain rfl := List.mem_singleton.mp hk
        exact hq (.read adrs len.toNat c.i2cbf) c.world
      | i2cWrite adrs data =>
        obtain rfl := List.mem_singleton.mp hk
        exact hq (.write adrs data []) c.world
      | _ => exact absurd hk List.not_mem_nil
    · exact ih _ hr

def taken {σ : Type} (fw : Fw σ) : Fw σ := {fw with inBusy := false}

/-- The host sends packets one after the other and takes every answer. -/
def serve {σ : Type} (b : Board σ) (fw : Fw σ) (pkts : List (List Byte)) : Fw σ :=
  pkts.foldl (fun fw pkt => taken (mainLoop b (deliver fw pkt))) fw

def received (pkts : List (List Byte)) : List Cmd :=
  pkts.flatMap fun pkt => (commands.decode pkt).1

theorem serve_core {σ : Type} (b : Board σ) (fw : Fw σ) (pkts : List (List Byte))
    (hi : fw.inBusy = false) (hl : ∀ pkt ∈ pkts, pkt.length < 256) :
    (serve b fw pkts).core = (runAll b fw.core (received pkts)).core ∧
      (serve b fw pkts).inBusy = false := by
  induction pkts generalizing fw with
  | nil => exact ⟨rfl,hi⟩
  | cons pkt pkts ih =>
    have ho : (deliver fw pkt).outBusy = false := rfl
    have hm : (mainLoop b (deliver fw pkt)).core =
        (runAll b fw.core (commands.decode pkt).1).core := by
      rw [(mainLoop_ready b ho hi).1,packet_deliver fw (hl pkt (by simp))]
      rfl
    have hh := ih (taken (mainLoop b (deliver fw pkt))) rfl fun p hp => hl p (by simp [hp])
    refine ⟨hh.1.trans ?_,hh.2⟩
    have hr : received (pkt::pkts) = (commands.decode pkt).1 ++ received pkts := rfl
    rw [hr,runAll_append,← hm]
    rfl

/-- The answer to `CMD_I2C_STATUS`: six words, high byte first. -/
def report (read write : Counters) : List Byte :=
  [read.errcnt,write.errcnt,read.berr,write.berr,read.timeout,write.timeout].flatMap fun w =>
    [msb w,lsb w]

/-- After any packets, `CMD_I2C_STATUS` reports the tallies of what has happened on the
bus since the counters were zeroed, modulo 2^16 and each direction for itself. -/
theorem status_tells (pins : Sfr → Byte) (i2cs i2dat : ℕ → Byte) (pkts : List (List Byte))
    (hl : ∀ pkt ∈ pkts, pkt.length ≤ 64) :
    let fw := idle (Ctl.fresh i2cs i2dat)
    let os := outcomes pins fw.core (received pkts)
    answer (mainLoop (board pins) (deliver (serve (board pins) fw pkts) [0x62])) =
        some (report (Counters.plus ⟨0,0,0⟩ (tally .read os))
          (Counters.plus ⟨0,0,0⟩ (tally .write os))) ∧
      ∀ o ∈ os, (Limit 0 o.bus → o.ret = false) ∧
        (.nack ∈ lastAttempt o.bus → o.ret = false ∧ ¬ Limit 0 o.bus) := by
  intro fw os
  have hs := serve_core (board pins) fw pkts rfl fun p hp => by have := hl p hp; omega
  refine ⟨?_,fun o ho => outcomes_fail pins fw.core (received pkts) ho⟩
  have hr := runAll_counters pins fw.core (received pkts)
  rw [← hs.1] at hr
  have ho : (deliver (serve (board pins) fw pkts) [0x62]).outBusy = false := rfl
  have hi : (deliver (serve (board pins) fw pkts) [0x62]).inBusy = false := hs.2
  have he : (effect (board pins) (deliver (serve (board pins) fw pkts) [0x62]).core
      (packet (deliver (serve (board pins) fw pkts) [0x62]))).answer =
        report (counters (serve (board pins) fw pkts).core .read)
          (counters (serve (board pins) fw pkts).core .write) := by
    have hd : commands.decode [0x62] = ([.i2cStatus],.done) := decode_status 1
    rw [packet_deliver _ (by decide),effect,hd]
    rfl
  rw [answer_mainLoop (board pins) ho hi (by rw [he]; exact (by decide : 12 < 256)),he,hr,hr]
  exact if_neg (List.cons_ne_nil _ _)

/-- A bus that is lost three times in front of a write, and then for good. -/
def busy (n : ℕ) : Byte := if 6 ≤ n ∧ n ≤ 15 then bmDone ||| bmAck else bmBerr

/-- The write arrives at last; the read that follows is given up at the limit. -/
theorem status_tells_sample :
    answer (mainLoop (board fun _ => 0) (deliver (serve (board fun _ => 0)
        (idle (Ctl.fresh busy fun _ => 0)) [[0x61,0x10,0x01,0x8b],[0x60,0x10,0x03]]) [0x62])) =
      some [0,1,0,0,0,20,0,3,0,1,0,0] := by
  have h := (status_tells (fun _ => 0) busy (fun _ => 0) [[0x61,0x10,0x01,0x8b],[0x60,0x10,0x03]]
    (by decide)).1
  have hk : received [[0x61,0x10,0x01,0x8b],[0x60,0x10,0x03]] =
      [.i2cWrite 0x10 [0x8b],.i2cRead 0x10 0x03] := by
    simp only [received,List.flatMap_cons,List.flatMap_nil,List.append_nil]
    rw [commands.decode_ok (q:=[]) rfl,commands.decode_error (e:=.done) rfl,
      commands.decode_ok (q:=[]) rfl,commands.decode_error (e:=.done) rfl]
    rfl
  rw [hk] at h
  exact h.trans (by decide +kernel)

end Diagnostics
end AkbPcr20x
