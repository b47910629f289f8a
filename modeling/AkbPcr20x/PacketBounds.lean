import AkbPcr20x.I2cCall
import AkbPcr20x.Link

/-! The bounds of the command loop. The loop is written again with a test in front of
every byte taken from the packet, every decrement of `cmd_cnt` but the one of the exit
test, every cell of `i2cbf` and at every loop head. No test ever fails, and the result
is that of `main_loop`. -/
namespace AkbPcr20x
namespace PacketBounds

open Memory MainLoop Pass Command Link

variable {σ : Type}

def take (tot : ℕ) (l : Pass σ) : Option (Pass σ) :=
  if l.ap1 < tot then some (l.skip 1) else none

def count (n : Byte) (l : Pass σ) : Option (Pass σ) :=
  if n ≤ l.cmdCnt then some (l.countCmd n) else none

def cells (n : ℕ) (l : Pass σ) : Option (Pass σ) := if n ≤ i2cBufLen then some l else none

def fillBuf (tot : ℕ) : ℕ → ℕ → Pass σ → Option (Pass σ)
  | 0, _, l => some l
  | n+1, i, l => do
    let l ← cells (i+1) l
    let l ← take tot {l with core := {l.core with
      i2cbf := Function.update l.core.i2cbf i l.xautodat1}}
    let l ← count 1 l
    fillBuf tot n (i+1) l

def copyBuf : ℕ → ℕ → Pass σ → Option (Pass σ)
  | 0, _, l => some l
  | n+1, i, l => do
    let l ← cells (i+1) l
    copyBuf n (i+1) ((l.put (l.core.i2cbf i)).countRet 1)

/-- A read of no bytes still stores one. -/
def cmdI2cRead (b : Board σ) (tot : ℕ) (l : Pass σ) : Option (Pass σ) :=
  if l.cmdCnt < 2 then some l.abort
  else do
    let adrs := l.xautodat1
    let l ← take tot l
    let len := l.xautodat1
    let l ← take tot l
    let l ← count 2 l
    if i2cBufLen < len.toNat then some l.abort
    else do
      let l ← cells (max len.toNat 1) l
      let r := b.i2cRead adrs len.toNat l.core.i2cbf l.core.world
      let l := ({l with core := {l.core with i2cbf := r.2.1, world := r.2.2}}).emit
        (.i2cRead adrs len.toNat r.1 (load r.2.1 0 len.toNat))
      if r.1 then copyBuf len.toNat 0 l
      else
        some (({l with core := {l.core with
          i2cReadErrcnt := l.core.i2cReadErrcnt + 1}}).emit .readErrcnt)

def cmdI2cWrite (b : Board σ) (tot : ℕ) (l : Pass σ) : Option (Pass σ) :=
  if l.cmdCnt < 2 then some l.abort
  else do
    let adrs := l.xautodat1
    let l ← take tot l
    let len := l.xautodat1
    let l ← take tot l
    let l ← count 2 l
    if i2cBufLen < len.toNat ∨ l.cmdCnt < len then some l.abort
    else do
      let l ← fillBuf tot len.toNat 0 l
      let l ← cells len.toNat l
      let data := load l.core.i2cbf 0 len.toNat
      let r := b.i2cWrite adrs data l.core.world
      let l := ({l with core := {l.core with world := r.2}}).emit (.i2cWrite adrs data r.1)
      if r.1 then some l
      else
        some (({l with core := {l.core with
          i2cWriteErrcnt := l.core.i2cWriteErrcnt + 1}}).emit .writeErrcnt)

def cmdRegWrite (b : Board σ) (tot : ℕ) (l : Pass σ) : Option (Pass σ) :=
  if l.cmdCnt < 2 then some l.abort
  else do
    let iod := l.portValue b .iod .oed
    let l := l.portRead b .iod
    let l ← take tot (l.setSfr .iod (modeRegw ||| (iod &&& l.core.addrMask) ||| l.xautodat1))
    let l := (l.setSfr .ifconfig 0xe0).setSfr .oeb 0xff
    let l ← take tot (l.setSfr .iob l.xautodat1)
    count 2 l

def cmdRegRead (b : Board σ) (tot : ℕ) (l : Pass σ) : Option (Pass σ) :=
  if l.cmdCnt < 1 then some l.abort
  else do
    let iod := l.portValue b .iod .oed
    let l := l.portRead b .iod
    let l ← take tot (l.setSfr .iod (modeRegr ||| (iod &&& l.core.addrMask) ||| l.xautodat1))
    let l := (l.setSfr .ifconfig 0xe0).setSfr .oeb 0x00
    let iob := l.portValue b .iob .oeb
    count 1 (((l.portRead b .iob).put iob).countRet 1)

def cmdPortWrite (b : Board σ) (tot : ℕ) (l : Pass σ) : Option (Pass σ) :=
  if l.cmdCnt < 1 then some l.abort
  else do
    let iod := l.portValue b .iod .oed
    let l := l.portRead b .iod
    let l ← take tot (l.setSfr .iod ((iod &&& ~~~ l.core.addrMask) ||| l.xautodat1))
    count 1 l

def cmdPortCfg (tot : ℕ) (l : Pass σ) : Option (Pass σ) :=
  if l.cmdCnt < 2 then some l.abort
  else do
    let l ← take tot {l with core := {l.core with addrMask := l.xautodat1 ||| 0xc0}}
    let l ← take tot (l.setSfr .oed (l.xautodat1 ||| l.core.addrMask))
    count 2 {l with core := {l.core with addrMask := ~~~ l.core.addrMask}}

def cmdIfconfig (tot : ℕ) (l : Pass σ) : Option (Pass σ) :=
  if l.cmdCnt < 1 then some l.abort
  else do
    let l ← take tot {l with core := {l.core with valIfconfig := l.xautodat1}}
    count 1 l

/-- The commands without operands take nothing. -/
def exec (b : Board σ) (tot : ℕ) : Op → Pass σ → Option (Pass σ)
  | .i2cRead => cmdI2cRead b tot
  | .i2cWrite => cmdI2cWrite b tot
  | .regWrite => cmdRegWrite b tot
  | .regRead => cmdRegRead b tot
  | .portWrite => cmdPortWrite b tot
  | .portCfg => cmdPortCfg tot
  | .ifconfig => cmdIfconfig tot
  | op => fun l => some (Pass.exec b op l)

/-- The bytes taken and the bytes left make up the packet. -/
def Balanced (tot : ℕ) (l : Pass σ) : Prop := l.aborted = true ∨ l.ap1 + l.cmdCnt.toNat = tot

instance (tot : ℕ) (l : Pass σ) : Decidable (Balanced tot l) := inferInstanceAs (Decidable (_ ∨ _))

/-- The command loop with the test at its head; it has to end within its fuel. -/
def loop (b : Board σ) (tot : ℕ) : ℕ → Pass σ → Option (Pass σ)
  | 0, _ => none
  | fuel+1, l =>
    if Balanced tot l then
      if l.cmdCnt = 0 then some (l.countCmd 1)
      else do
        let l ← count 1 l
        let op := Op.ofByte l.xautodat1
        let l ← take tot l
        let l ← exec b tot op {l with turns := l.turns + 1}
        loop b tot fuel l
    else none

theorem take_eq {tot : ℕ} {l : Pass σ} (h : l.ap1 < tot) : take tot l = some (l.skip 1) := if_pos h

theorem count_eq {n : Byte} {l : Pass σ} (h : n ≤ l.cmdCnt) : count n l = some (l.countCmd n) :=
  if_pos h

theorem cells_eq {n : ℕ} {l : Pass σ} (h : n ≤ i2cBufLen) : cells n l = some l := if_pos h

theorem copyBuf_checked (n i : ℕ) (l : Pass σ) (h : i + n ≤ i2cBufLen) :
    copyBuf n i l = some (Pass.copyBuf n i l) := by
  induction n generalizing i l with
  | zero => rfl
  | succ n ih =>
    rw [copyBuf,cells_eq (by omega)]
    exact ih (i+1) _ (by omega)

theorem fillBuf_checked (tot n i : ℕ) (l : Pass σ) (h : i + n ≤ i2cBufLen)
    (hn : n ≤ l.cmdCnt.toNat) (hl : l.ap1 + l.cmdCnt.toNat = tot) :
    fillBuf tot n i l = some (Pass.fillBuf n i l) := by
  induction n generalizing i l with
  | zero => rfl
  | succ n ih =>
    have hc : (l.cmdCnt - 1).toNat = l.cmdCnt.toNat - 1 := by bv_omega
    rw [fillBuf,cells_eq (by omega)]
    simp only [Option.bind_eq_bind,Option.bind_some]
    rw [take_eq (by simp only; omega),Option.bind_some,
      count_eq (by simp only [skip]; bv_omega),Option.bind_some]
    refine ih (i+1) _ (by omega) ?_ ?_
    · simp only [skip,countCmd,hc]
      omega
    · simp only [skip,countCmd,hc]
      omega

section
variable (b : Board σ) (tot : ℕ) (l : Pass σ) (h : l.ap1 + l.cmdCnt.toNat = tot)
include h

theorem cmdI2cRead_checked : cmdI2cRead b tot l = some (Pass.cmdI2cRead b l) := by
  rw [cmdI2cRead,Pass.cmdI2cRead]
  by_cases hc : l.cmdCnt < 2
  · rw [if_pos hc,if_pos hc]
  rw [if_neg hc,if_neg hc]
  have hn : 2 ≤ l.cmdCnt.toNat := by bv_omega
  simp only [Option.bind_eq_bind]
  rw [take_eq (by omega),Option.bind_some,take_eq (by simp only [skip]; omega),Option.bind_some,
    count_eq (by simp only [skip]; bv_omega),Option.bind_some]
  by_cases hl : i2cBufLen < (l.skip 1).xautodat1.toNat
  · rw [if_pos hl,if_pos hl]
  rw [if_neg hl,if_neg hl,cells_eq (by simp only [i2cBufLen] at hl ⊢; omega),Option.bind_some]
  split_ifs
  · exact copyBuf_checked _ 0 _ (by omega)
  · rfl

theorem cmdRegWrite_checked : cmdRegWrite b tot l = some (Pass.cmdRegWrite b l) := by
  rw [cmdRegWrite,Pass.cmdRegWrite]
  by_cases hc : l.cmdCnt < 2
  · rw [if_pos hc,if_pos hc]
  rw [if_neg hc,if_neg hc]
  have hn : 2 ≤ l.cmdCnt.toNat := by bv_omega
  simp only [Option.bind_eq_bind]
  rw [take_eq (by simp only [setSfr,emit,portRead]; omega),Option.bind_some,
    take_eq (by simp only [setSfr,emit,portRead,skip]; omega),Option.bind_some]
  exact count_eq (by simp only [setSfr,emit,portRead,skip]; bv_omega)

theorem cmdI2cWrite_checked : cmdI2cWrite b tot l = some (Pass.cmdI2cWrite b l) := by
  rw [cmdI2cWrite,Pass.cmdI2cWrite]
  by_cases hc : l.cmdCnt < 2
  · rw [if_pos hc,if_pos hc]
  rw [if_neg hc,if_neg hc]
  have hn : 2 ≤ l.cmdCnt.toNat := by bv_omega
  simp only [Option.bind_eq_bind]
  rw [take_eq (by omega),Option.bind_some,take_eq (by simp only [skip]; omega),Option.bind_some,
    count_eq (by simp only [skip]; bv_omega),Option.bind_some]
  by_cases hl : i2cBufLen < (l.skip 1).xautodat1.toNat ∨
      (((l.skip 1).skip 1).countCmd 2).cmdCnt < (l.skip 1).xautodat1
  · rw [if_pos hl,if_pos hl]
  rw [if_neg hl,if_neg hl]
  rw [not_or] at hl
  have hm : (l.skip 1).xautodat1.toNat ≤ (((l.skip 1).skip 1).countCmd 2).cmdCnt.toNat := by
    bv_omega
  have hs : (((l.skip 1).skip 1).countCmd 2).cmdCnt.toNat = l.cmdCnt.toNat - 2 := by
    simp only [countCmd,skip]
    bv_omega
  rw [fillBuf_checked tot _ 0 _ (by omega) hm (by rw [hs]; simp only [countCmd,skip]; omega),
    Option.bind_some,cells_eq (by omega),Option.bind_some]
  split_ifs <;> rfl

theorem cmdRegRead_checked : cmdRegRead b tot l = some (Pass.cmdRegRead b l) := by
  rw [cmdRegRead,Pass.cmdRegRead]
  by_cases hc : l.cmdCnt < 1
  · rw [if_pos hc,if_pos hc]
  rw [if_neg hc,if_neg hc]
  have hn : 1 ≤ l.cmdCnt.toNat := by bv_omega
  simp only [Option.bind_eq_bind]
  rw [take_eq (by simp only [setSfr,emit,portRead]; omega),Option.bind_some]
  exact count_eq (by simp only [setSfr,emit,portRead,put,countRet,skip]; bv_omega)

theorem cmdPortWrite_checked : cmdPortWrite b tot l = some (Pass.cmdPortWrite b l) := by
  rw [cmdPortWrite,Pass.cmdPortWrite]
  by_cases hc : l.cmdCnt < 1
  · rw [if_pos hc,if_pos hc]
  rw [if_neg hc,if_neg hc]
  have hn : 1 ≤ l.cmdCnt.toNat := by bv_omega
  simp only [Option.bind_eq_bind]
  rw [take_eq (by simp only [setSfr,emit,portRead]; omega),Option.bind_some]
  exact count_eq (by simp only [setSfr,emit,portRead,skip]; bv_omega)

theorem cmdPortCfg_checked : cmdPortCfg tot l = some (Pass.cmdPortCfg l) := by
  rw [cmdPortCfg,Pass.cmdPortCfg]
  by_cases hc : l.cmdCnt < 2
  · rw [if_pos hc,if_pos hc]
  rw [if_neg hc,if_neg hc]
  have hn : 2 ≤ l.cmdCnt.toNat := by bv_omega
  simp only [Option.bind_eq_bind]
  rw [take_eq (by simp only; omega),Option.bind_some,
    take_eq (by simp only [setSfr,emit,skip]; omega),Option.bind_some]
  exact count_eq (by simp only [setSfr,emit,skip]; bv_omega)

theorem cmdIfconfig_checked : cmdIfconfig tot l = some (Pass.cmdIfconfig l) := by
  rw [cmdIfconfig,Pass.cmdIfconfig]
  by_cases hc : l.cmdCnt < 1
  · rw [if_pos hc,if_pos hc]
  rw [if_neg hc,if_neg hc]
  have hn : 1 ≤ l.cmdCnt.toNat := by bv_omega
  simp only [Option.bind_eq_bind]
  rw [take_eq (by simp only; omega),Option.bind_some]
  exact count_eq (by simp only [skip]; bv_omega)

theorem exec_checked (op : Op) : exec b tot op l = some (Pass.exec b op l) := by
  cases op with
  | i2cRead => exact cmdI2cRead_checked b tot l h
  | i2cWrite => exact cmdI2cWrite_checked b tot l h
  | regWrite => exact cmdRegWrite_checked b tot l h
  | regRead => exact cmdRegRead_checked b tot l h
  | portWrite => exact cmdPortWrite_checked b tot l h
  | portCfg => exact cmdPortCfg_checked tot l h
  | ifconfig => exact cmdIfconfig_checked tot l h
  | _ => rfl

end

/-- The invariant of the loop heads: an aborted packet has nothing left to count. -/
def Head (tot : ℕ) (l : Pass σ) : Prop :=
  l.aborted = true ∧ l.cmdCnt = 0 ∨ l.ap1 + l.cmdCnt.toNat = tot

theorem head_turn (b : Board σ) {tot : ℕ} {l : Pass σ} (h : l.ap1 + l.cmdCnt.toNat = tot)
    (hc : l.cmdCnt ≠ 0) : Head tot (Pass.turn b (l.countCmd 1)) := by
  rcases turn_cases b hc with ⟨c,k,hk,_,he⟩ | ⟨_,k,n,he⟩
  · have hn : (l.cmdCnt - 1 - BitVec.ofNat 8 k).toNat = l.cmdCnt.toNat - 1 - k := by bv_omega
    rw [he]
    refine Or.inr ?_
    simp only [after,fetch,countCmd,skip,hn]
    omega
  · rw [he]
    exact Or.inl ⟨rfl,rfl⟩

/-- The tests change nothing, and the loop ends by its exit test. -/
theorem loop_checked (b : Board σ) (tot fuel : ℕ) (l : Pass σ) (h : Head tot l)
    (hf : l.cmdCnt.toNat < fuel) : loop b tot fuel l = some (Pass.loop b fuel l) := by
  induction fuel generalizing l with
  | zero => omega
  | succ fuel ih =>
    have hb : Balanced tot l := h.imp And.left id
    rw [loop,Pass.loop,if_pos hb]
    by_cases hc : l.cmdCnt = 0
    · rw [if_pos hc,if_pos hc]
    · have hn : l.ap1 + l.cmdCnt.toNat = tot := h.resolve_left fun hh => hc hh.2
      have hp : 1 ≤ l.cmdCnt.toNat := by bv_omega
      have hs : (l.cmdCnt - 1).toNat = l.cmdCnt.toNat - 1 := by bv_omega
      rw [if_neg hc,if_neg hc]
      simp only [Option.bind_eq_bind]
      rw [count_eq (by bv_omega),Option.bind_some,take_eq (by simp only [countCmd]; omega),
        Option.bind_some,exec_checked b tot _ (by simp only [countCmd,skip,hs]; omega),
        Option.bind_some]
      exact ih _ (head_turn b hn hc) (Nat.lt_of_lt_of_le (turn_packet b hc).2 (by omega))

theorem loop_turns (b : Board σ) (fuel : ℕ) (l : Pass σ) :
    (Pass.loop b fuel l).turns ≤ l.turns + l.cmdCnt.toNat := by
  induction fuel generalizing l with
  | zero => exact Nat.le_add_right _ _
  | succ fuel ih =>
    rw [Pass.loop]
    split_ifs with hc
    · exact Nat.le_add_right _ _
    · have ht : (Pass.turn b (l.countCmd 1)).turns = l.turns + 1 := by
        rcases turn_cases b hc with ⟨c,k,_,_,he⟩ | ⟨_,k,n,he⟩
        · rw [he]
          rfl
        · rw [he]
          rfl
      have hp := (turn_packet b hc).2
      have hh := ih (Pass.turn b (l.countCmd 1))
      omega

/-- The command loop stays inside its packet, whatever the packet and the bus: every test
holds, each command takes a byte of the packet, only the commands in front of the first
malformed one are executed, and `i2c_read` leaves the cells behind its buffer alone. -/
theorem parser_inside (b : Board σ) (fw : Fw σ) :
    loop b fw.outBc.toNat 256 (start fw) = some (pass b fw) ∧
      (pass b fw).turns ≤ fw.outBc.toNat ∧
      (pass b fw).core = (runAll b fw.core (commands.decode (packet fw)).1).core ∧
      (pass b fw).log = (runAll b fw.core (commands.decode (packet fw)).1).log ∧
      (pass b fw).aborted = decide ((commands.decode (packet fw)).2 = .malformed) ∧
      ∀ addr len buf s j, max len 1 ≤ j → (I2cEngine.i2cRead addr len buf s).2.1 j = buf j := by
  have hr := pass_ran b fw
  have hturns := loop_turns b 256 (start fw)
  rw [show (start fw).turns = 0 from rfl,Nat.zero_add] at hturns
  refine ⟨?_,hturns,hr.core,hr.log,hr.aborted,fun addr len buf s j hj => ?_⟩
  · exact loop_checked b _ 256 (start fw) (Or.inr (Nat.zero_add _)) fw.outBc.isLt
  · exact I2cCall.i2cRead_frame addr len buf s hj

/-- The bytes a command may answer. -/
def asks : Cmd → ℕ
  | .i2cRead _ len => len.toNat
  | .i2cStatus => 12
  | .regRead _ => 1
  | .portRead => 1
  | _ => 0

def asked (pkt : List Byte) : ℕ := ((commands.decode pkt).1.map asks).sum

theorem run_answer_le (b : Board σ) (c : Core σ) (k : Cmd) :
    (k.run b c).answer.length ≤ asks k := by
  cases k with
  | i2cRead adrs len =>
    simp only [Cmd.run,runRead]
    split <;> simp [asks]
  | i2cWrite adrs data =>
    simp only [Cmd.run,runWrite]
    split <;> exact Nat.zero_le _
  | _ => exact le_rfl

theorem runAll_answer_le (b : Board σ) (c : Core σ) (ks : List Cmd) :
    (runAll b c ks).answer.length ≤ (ks.map asks).sum := by
  induction ks generalizing c with
  | nil => exact le_rfl
  | cons k ks ih =>
    have hk := run_answer_le b c k
    have hks := ih (k.run b c).core
    simp only [runAll,List.length_append,List.map_cons,List.sum_cons]
    omega

def willing : Board σ where
  i2cWrite _ _ s := (true,s)
  i2cRead _ _ buf s := (true,buf,s)
  diag _ := ⟨0,0,0,0⟩
  pins _ s := (0,s)

theorem runAll_answer_willing (c : Core σ) (ks : List Cmd) :
    (runAll willing c ks).answer.length = (ks.map asks).sum := by
  induction ks generalizing c with
  | nil => rfl
  | cons k ks ih =>
    have hk : (k.run willing c).answer.length = asks k := by
      cases k <;> simp [Cmd.run,runRead,runWrite,willing,asks,runStart,Effect.ofWrites,statusBytes]
    simp only [runAll,List.length_append,List.map_cons,List.sum_cons,hk,ih]

theorem loop_ap2 (b : Board σ) (fuel : ℕ) (l : Pass σ) (hf : l.cmdCnt.toNat < fuel) :
    (Pass.loop b fuel l).ap2 =
      l.ap2 + (runAll b l.core (commands.decode (rest l)).1).answer.length := by
  induction fuel generalizing l with
  | zero => omega
  | succ fuel ih =>
    rw [Pass.loop]
    by_cases hc : l.cmdCnt = 0
    · have hr : rest l = [] := by simp [rest,hc]
      rw [if_pos hc,hr,commands.decode_error (e:=.done) rfl]
      rfl
    · rw [if_neg hc,ih _ (by have := (turn_packet b hc).2; omega)]
      rcases turn_cases b hc with ⟨k,n,_,hn,he⟩ | ⟨hn,k,n,he⟩
      · rw [commands.decode_ok hn,he]
        simp only [runAll,List.length_append,after,fetch,countCmd,skip]
        omega
      · have hr : rest (({fetch l with ap1 := k, cmdCnt := n}).abort) = [] := rfl
        rw [commands.decode_error hn,he,hr,commands.decode_error (e:=.done) rfl]
        rfl

theorem pass_ap2 (b : Board σ) (fw : Fw σ) :
    (pass b fw).ap2 = (runAll b fw.core (commands.decode (packet fw)).1).answer.length := by
  have h := loop_ap2 b 256 (start fw) fw.outBc.isLt
  rwa [show (start fw).ap2 = 0 from rfl,Nat.zero_add] at h

/-- The answer to a packet fits EP1IN, is counted, and is what EP1IN is armed with. -/
def AnswerFits (b : Board σ) (fw : Fw σ) (pkt : List Byte) : Prop :=
  let l := pass b (deliver fw pkt)
  let fw' := mainLoop b (deliver fw pkt)
  l.ap2 ≤ 64 ∧ l.retCnt.toNat = l.ap2 ∧
    (l.ap2 ≠ 0 → fw'.inBusy = true ∧ fw'.inBc.toNat = l.ap2)

theorem answerFits_iff (b : Board σ) {fw : Fw σ} (hi : fw.inBusy = false) {pkt : List Byte}
    (hl : pkt.length ≤ 64) : AnswerFits b fw pkt ↔ (effect b fw.core pkt).answer.length ≤ 64 := by
  have hap : (pass b (deliver fw pkt)).ap2 = (effect b fw.core pkt).answer.length := by
    rw [pass_ap2,packet_deliver fw (by omega)]
    rfl
  have hret : (pass b (deliver fw pkt)).retCnt.toNat = (effect b fw.core pkt).answer.length % 256 := by
    rw [(pass_deliver b fw (by omega)).retCnt,show (start (deliver fw pkt)).retCnt = 0 from rfl,
      show ∀ x : Byte, 0 + x = x from BitVec.zero_add,BitVec.toNat_ofNat]
  have hdi : (deliver fw pkt).inBusy = false := hi
  simp only [AnswerFits,hap,hret]
  refine ⟨And.left,fun h => ⟨h,Nat.mod_eq_of_lt (by omega),fun hne => ?_⟩⟩
  have hz : (pass b (deliver fw pkt)).retCnt ≠ 0 := by
    intro hz
    rw [hz] at hret
    simp only [BitVec.ofNat_eq_ofNat,BitVec.toNat_ofNat] at hret
    omega
  have hdo : (deliver fw pkt).outBusy = false := rfl
  rw [mainLoop_free b hdo hdi,if_pos hz]
  refine ⟨rfl,hret.trans (Nat.mod_eq_of_lt (by omega))⟩

/-- A packet is answered within the buffer on every bus exactly when its commands ask for
no more bytes than the buffer has. -/
theorem answer_fits_iff_asked (fw : Fw σ) (hi : fw.inBusy = false) (pkt : List Byte)
    (hl : pkt.length ≤ 64) : (∀ b : Board σ, AnswerFits b fw pkt) ↔ asked pkt ≤ 64 := by
  refine ⟨fun h => ?_,fun h b => ?_⟩
  · have hw := (answerFits_iff willing hi hl).mp (h willing)
    rwa [effect,runAll_answer_willing] at hw
  · exact (answerFits_iff b hi hl).mpr ((runAll_answer_le b fw.core _).trans h)

/-- Five `CMD_I2C_STATUS` in a packet fit. -/
theorem answer_fits_sample : AnswerFits willing (idle ()) (List.replicate 5 0x62) := by
  have h : asked (List.replicate 5 0x62) ≤ 64 := by
    rw [asked,decode_status]
    decide
  exact (answer_fits_iff_asked (idle ()) rfl _ (by decide)).mpr h willing

/-- 64 of them store 768 bytes, `ret_cnt` wraps to zero and EP1IN is not armed. -/
theorem overrun_sample :
    (pass willing (deliver (idle ()) (List.replicate 64 0x62))).ap2 = 768 ∧
      (pass willing (deliver (idle ()) (List.replicate 64 0x62))).retCnt = 0 ∧
      ¬ AnswerFits willing (idle ()) (List.replicate 64 0x62) := by
  have ha : (effect willing (idle ()).core (List.replicate 64 0x62)).answer.length = 768 := by
    rw [effect,runAll_answer_willing,decode_status]
    decide
  have hp : (pass willing (deliver (idle ()) (List.replicate 64 0x62))).ap2 = 768 := by
    rw [pass_ap2,packet_deliver _ (by decide)]
    exact ha
  refine ⟨hp,?_,fun h => ?_⟩
  · rw [(pass_deliver willing (idle ()) (by decide)).retCnt,ha]
    decide
  · have hh := h.1
    rw [hp] at hh
    omega

end PacketBounds
end AkbPcr20x
