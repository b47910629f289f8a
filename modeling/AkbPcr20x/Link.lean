import AkbPcr20x.I2cXfer
import AkbPcr20x.Interpreter

/-! Driver and firmware joined at endpoint 1. The packets of the driver are read in
the command language of the firmware, and a poll of `main_loop` over a delivered
packet is described by the commands it decodes to. -/
namespace AkbPcr20x
namespace Link

open Memory MainLoop Command I2cXfer

variable {σ υ : Type}

def deliver (fw : Fw σ) (pkt : List Byte) : Fw σ :=
  {fw with outBusy := false, outBuf := store fw.outBuf 0 pkt, outBc := BitVec.ofNat 8 pkt.length}

def answer (fw : Fw σ) : Option (List Byte) :=
  if fw.inBusy then some (load fw.inBuf 0 fw.inBc.toNat) else none

def idle (w : σ) : Fw σ :=
  ⟨⟨fun _ => 0,0,0,fun _ => 0,0,0,w⟩,true,false,fun _ => 0,0,fun _ => 0,0⟩

theorem packet_deliver (fw : Fw σ) {pkt : List Byte} (h : pkt.length < 256) :
    packet (deliver fw pkt) = pkt := by
  simp only [packet,deliver,BitVec.toNat_ofNat,Nat.mod_eq_of_lt h,load_store]

def effect (b : Board σ) (c : Core σ) (pkt : List Byte) : Effect σ :=
  runAll b c (commands.decode pkt).1

theorem pass_deliver (b : Board σ) (fw : Fw σ) {pkt : List Byte} (h : pkt.length < 256) :
    Ran (start (deliver fw pkt)) (pass b (deliver fw pkt)) (effect b fw.core pkt)
      (commands.decode pkt).2 := by
  have hr := pass_ran b (deliver fw pkt)
  rwa [packet_deliver fw h] at hr

theorem mainLoop_free (b : Board σ) {f : Fw σ} (ho : f.outBusy = false) (hi : f.inBusy = false) :
    mainLoop b f =
      if (pass b f).retCnt ≠ 0 then
        {f with core := (pass b f).core, outBusy := true, inBuf := (pass b f).inBuf,
                inBc := (pass b f).retCnt, inBusy := true}
      else {f with core := (pass b f).core, outBusy := true, inBuf := (pass b f).inBuf} := by
  simp only [mainLoop,ho,hi,Bool.false_eq_true,if_false]

theorem mainLoop_ready (b : Board σ) {fw : Fw σ} (ho : fw.outBusy = false)
    (hi : fw.inBusy = false) :
    (mainLoop b fw).core = (effect b fw.core (packet fw)).core ∧
      (mainLoop b fw).outBusy = true := by
  have h := pass_ran b fw
  rw [mainLoop_free b ho hi]
  by_cases hr : (pass b fw).retCnt ≠ 0
  · rw [if_pos hr]
    exact ⟨h.core,rfl⟩
  · rw [if_neg hr]
    exact ⟨h.core,rfl⟩

theorem mainLoop_blocked (b : Board σ) {fw : Fw σ}
    (h : ¬ (fw.outBusy = false ∧ fw.inBusy = false)) : mainLoop b fw = fw := by
  cases ho : fw.outBusy with
  | true => simp [mainLoop,ho]
  | false =>
    have hi : fw.inBusy = true := by simpa [ho] using h
    simp [mainLoop,ho,hi]

/-- EP1IN is armed with the answer bytes of the commands, if there are any. -/
theorem answer_mainLoop (b : Board σ) {fw : Fw σ} (ho : fw.outBusy = false)
    (hi : fw.inBusy = false) (hl : (effect b fw.core (packet fw)).answer.length < 256) :
    answer (mainLoop b fw) =
      if (effect b fw.core (packet fw)).answer = [] then none
      else some (effect b fw.core (packet fw)).answer := by
  have h := pass_ran b fw
  have hr : (pass b fw).retCnt =
      BitVec.ofNat 8 (effect b fw.core (packet fw)).answer.length := by
    rw [h.retCnt]
    exact BitVec.zero_add _
  have hb : (pass b fw).inBuf = store fw.inBuf 0 (effect b fw.core (packet fw)).answer := h.inBuf
  have hz : (pass b fw).retCnt ≠ 0 ↔ (effect b fw.core (packet fw)).answer ≠ [] := by
    rw [hr,ne_eq,ne_eq,← List.length_eq_zero_iff]
    bv_omega
  rw [mainLoop_free b ho hi]
  by_cases he : (effect b fw.core (packet fw)).answer = []
  · rw [if_neg (fun hn => hz.mp hn he),if_pos he]
    simp [answer,hi]
  · rw [if_pos (hz.mpr he),if_neg he]
    simp only [answer,if_true,hb,hr,BitVec.toNat_ofNat,Nat.mod_eq_of_lt hl,load_store]

theorem decode_status (n : ℕ) :
    commands.decode (List.replicate n 0x62) = (List.replicate n .i2cStatus,.done) := by
  induction n with
  | zero => exact commands.decode_error rfl
  | succ n ih =>
    rw [List.replicate_succ,commands.decode_ok (q:=List.replicate n 0x62) rfl,ih]
    rfl

theorem next_write (addr : Byte) {data q : List Byte} (h : data.length ≤ i2cBufLen) :
    commands.next (writeCommand addr data ++ q) = .ok (.i2cWrite addr data,q) := by
  have hl : (BitVec.ofNat 8 data.length).toNat = data.length := by
    simp only [i2cBufLen] at h
    rw [BitVec.toNat_ofNat]
    omega
  change writeOperands (addr::BitVec.ofNat 8 data.length::(data ++ q)) = _
  rw [writeOperands,hl,if_neg (by rw [List.length_append]; omega),List.take_left,List.drop_left]

theorem next_write_long (addr : Byte) {data q : List Byte} (h : i2cBufLen < data.length)
    (hl : data.length < 256) : commands.next (writeCommand addr data ++ q) = .error .malformed := by
  have he : (BitVec.ofNat 8 data.length).toNat = data.length := by
    rw [BitVec.toNat_ofNat]
    omega
  change writeOperands (addr::BitVec.ofNat 8 data.length::(data ++ q)) = _
  rw [writeOperands,he,if_pos (Or.inl h)]

theorem next_read (addr : Byte) {rlen : ℕ} (h : rlen ≤ i2cBufLen) :
    commands.next (readCommand addr rlen) = .ok (.i2cRead addr (BitVec.ofNat 8 rlen),[]) := by
  have hl : (BitVec.ofNat 8 rlen).toNat = rlen := by
    simp only [i2cBufLen] at h
    rw [BitVec.toNat_ofNat]
    omega
  change readOperands [addr,BitVec.ofNat 8 rlen] = _
  rw [readOperands,hl,if_neg (by omega)]

theorem next_read_long (addr : Byte) {rlen : ℕ} (h : i2cBufLen < rlen) (hl : rlen < 256) :
    commands.next (readCommand addr rlen) = .error .malformed := by
  have he : (BitVec.ofNat 8 rlen).toNat = rlen := by
    rw [BitVec.toNat_ofNat]
    omega
  change readOperands [addr,BitVec.ofNat 8 rlen] = _
  rw [readOperands,he,if_pos h]

/-- The firmware's limit on the lengths of a transaction. -/
def Fits (t : Transaction) : Prop := ∀ m ∈ t.msgs, m.len ≤ i2cBufLen

/-- What the firmware decodes from a packet of the driver: a command for each
message up to the first one that is too long. -/
def decoded : Transaction → List Cmd × Stop
  | .write m =>
    if m.len ≤ i2cBufLen then ([.i2cWrite (m.addr.setWidth 8) m.buf],.done) else ([],.malformed)
  | .pair m r =>
    if m.len ≤ i2cBufLen then
      if r.len ≤ i2cBufLen then
        ([.i2cWrite (m.addr.setWidth 8) m.buf,
          .i2cRead (m.addr.setWidth 8) (BitVec.ofNat 8 r.len)],.done)
      else ([.i2cWrite (m.addr.setWidth 8) m.buf],.malformed)
    else ([],.malformed)

theorem decode_packet {t : Transaction} (h : t.Accepted) :
    commands.decode t.packet = decoded t := by
  have hnil : commands.decode [] = ([],.done) := commands.decode_error rfl
  cases t with
  | write m =>
    obtain ⟨_,_,_,_,hm⟩ := h
    rw [Transaction.packet,← List.append_nil (writeCommand _ _),decoded]
    by_cases hl : m.len ≤ i2cBufLen
    · rw [if_pos hl,commands.decode_ok (next_write (m.addr.setWidth 8) hl),hnil]
    · rw [if_neg hl]
      exact commands.decode_error (next_write_long _ (by rw [I2cMsg.len] at hl; omega)
        (by rw [I2cMsg.len] at hm; omega))
  | pair m r =>
    obtain ⟨_,_,_,_,hm,_,_,_,hr⟩ := h
    rw [Transaction.packet,decoded]
    by_cases hl : m.len ≤ i2cBufLen
    · rw [if_pos hl,commands.decode_ok (next_write (m.addr.setWidth 8) hl)]
      by_cases hk : r.len ≤ i2cBufLen
      · rw [if_pos hk,commands.decode_ok (next_read (m.addr.setWidth 8) hk),hnil]
      · rw [if_neg hk,commands.decode_error (next_read_long _ (by omega) (by omega))]
    · rw [if_neg hl]
      exact commands.decode_error (next_write_long _ (by rw [I2cMsg.len] at hl; omega)
        (by rw [I2cMsg.len] at hm; omega))

theorem packet_lt {t : Transaction} (h : t.Accepted) : t.packet.length < 256 := by
  have hl := (t.packet_length_le h).2
  simp only [maxI2cBufferSize] at hl
  omega

/-- The firmware refuses part of a packet exactly when a message is too long for it. -/
theorem decoded_done_iff (t : Transaction) : (decoded t).2 = .done ↔ Fits t := by
  cases t with
  | write m =>
    simp only [decoded,Fits,Transaction.msgs,List.mem_singleton,forall_eq]
    split_ifs with h <;> simp [h]
  | pair m r =>
    simp only [decoded,Fits,Transaction.msgs,List.mem_cons,List.not_mem_nil,or_false,
      forall_eq_or_imp,forall_eq]
    split_ifs with h₁ h₂ <;> simp_all

end Link
end AkbPcr20x
