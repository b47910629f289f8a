import AkbPcr20x.I2cEngine
import AkbPcr20x.Link

/-! What the firmware does with the packets of the driver. Within the limits of the
firmware a packet is served exactly as it was encoded. -/
namespace AkbPcr20x
namespace Agreement

open Memory MainLoop Command I2cXfer I2cEngine Link

variable {σ υ : Type}

/-- What is seen of a poll over a delivered packet that runs to the packet's end. -/
structure Served (b : Board σ) (fw : Fw σ) (pkt : List Byte) (log : List Ev)
    (ans : Option (List Byte)) : Prop where
  log_eq : (pass b (deliver fw pkt)).log = log
  consumed : (pass b (deliver fw pkt)).ap1 = pkt.length
  complete : (pass b (deliver fw pkt)).aborted = false
  answer_eq : answer (mainLoop b (deliver fw pkt)) = ans

/-- A call of `i2c_write`, with the error count when it fails. -/
def writeLog (adrs : Byte) (data : List Byte) (ret : Bool) : List Ev :=
  .i2cWrite adrs data ret :: if ret then [] else [.writeErrcnt]

/-- A call of `i2c_read` and the bytes it left in the buffer. -/
def readLog (adrs : Byte) (len : ℕ) (data : List Byte) (ret : Bool) : List Ev :=
  .i2cRead adrs len ret data :: if ret then [] else [.readErrcnt]

theorem served_of_done (b : Board σ) {fw : Fw σ} (hi : fw.inBusy = false) {pkt : List Byte}
    (hl : pkt.length < 256) (hd : (commands.decode pkt).2 = .done)
    (ha : (effect b fw.core pkt).answer.length < 256) :
    Served b fw pkt (effect b fw.core pkt).log
      (if (effect b fw.core pkt).answer = [] then none
        else some (effect b fw.core pkt).answer) where
  log_eq := by simpa [start] using (pass_deliver b fw hl).log
  consumed := by
    rw [(pass_deliver b fw hl).ap1 hd]
    simp only [start,deliver,BitVec.toNat_ofNat]
    omega
  complete := by simpa [start,hd] using (pass_deliver b fw hl).aborted
  answer_eq := by
    have h := answer_mainLoop b (rfl : (deliver fw pkt).outBusy = false) hi
    rw [packet_deliver fw hl] at h
    exact h ha

theorem runWrite_log (b : Board σ) (c : Core σ) (adrs : Byte) (data : List Byte) :
    (runWrite b c adrs data).log = writeLog adrs data (b.i2cWrite adrs data c.world).1 := by
  simp only [runWrite,writeLog]
  split_ifs with h <;> simp [h]

theorem runWrite_answer (b : Board σ) (c : Core σ) (adrs : Byte) (data : List Byte) :
    (runWrite b c adrs data).answer = [] := by
  simp only [runWrite]
  split_ifs <;> rfl

theorem runWrite_core (b : Board σ) (c : Core σ) (adrs : Byte) (data : List Byte) :
    (runWrite b c adrs data).core.i2cbf = store c.i2cbf 0 data ∧
      (runWrite b c adrs data).core.world = (b.i2cWrite adrs data c.world).2 := by
  simp only [runWrite]
  split_ifs <;> exact ⟨rfl,rfl⟩

theorem runRead_log (b : Board σ) (c : Core σ) (adrs len : Byte) :
    (runRead b c adrs len).log = readLog adrs len.toNat
      (load (b.i2cRead adrs len.toNat c.i2cbf c.world).2.1 0 len.toNat)
      (b.i2cRead adrs len.toNat c.i2cbf c.world).1 := by
  simp only [runRead,readLog]
  split_ifs with h <;> simp [h]

theorem runRead_answer (b : Board σ) (c : Core σ) (adrs len : Byte) :
    (runRead b c adrs len).answer =
      if (b.i2cRead adrs len.toNat c.i2cbf c.world).1 then
        load (b.i2cRead adrs len.toNat c.i2cbf c.world).2.1 0 len.toNat else [] := by
  simp only [runRead]
  split_ifs <;> rfl

def writeCall (b : Board σ) (c : Core σ) (m : I2cMsg) : Bool × σ :=
  b.i2cWrite (m.addr.setWidth 8) m.buf c.world

/-- The read of a pair; it finds the state that the write left. -/
def readCall (b : Board σ) (c : Core σ) (m r : I2cMsg) : Bool × Mem Byte × σ :=
  b.i2cRead (m.addr.setWidth 8) r.len (store c.i2cbf 0 m.buf) (writeCall b c m).2

theorem effect_write (b : Board σ) (c : Core σ) {m : I2cMsg} (h : (Transaction.write m).Accepted)
    (hm : m.len ≤ i2cBufLen) :
    (effect b c (Transaction.write m).packet).log =
        writeLog (m.addr.setWidth 8) m.buf (writeCall b c m).1 ∧
      (effect b c (Transaction.write m).packet).answer = [] := by
  rw [effect,decode_packet h,decoded,if_pos hm]
  simp [runAll,Cmd.run,runWrite_log,runWrite_answer,writeCall]

theorem effect_pair (b : Board σ) (c : Core σ) {m r : I2cMsg}
    (h : (Transaction.pair m r).Accepted) (hm : m.len ≤ i2cBufLen) (hr : r.len ≤ i2cBufLen) :
    (effect b c (Transaction.pair m r).packet).log =
        writeLog (m.addr.setWidth 8) m.buf (writeCall b c m).1 ++
          readLog (m.addr.setWidth 8) r.len (load (readCall b c m r).2.1 0 r.len)
            (readCall b c m r).1 ∧
      (effect b c (Transaction.pair m r).packet).answer =
        if (readCall b c m r).1 then load (readCall b c m r).2.1 0 r.len else [] := by
  have hn : (BitVec.ofNat 8 r.len).toNat = r.len := by
    simp only [i2cBufLen] at hr
    rw [BitVec.toNat_ofNat]
    omega
  have hc := runWrite_core b c (m.addr.setWidth 8) m.buf
  rw [effect,decode_packet h,decoded,if_pos hm,if_pos hr]
  simp only [runAll,Cmd.run,runWrite_log,runWrite_answer,runRead_log,runRead_answer,hn,hc.1,hc.2,
    List.append_nil,List.nil_append]
  exact ⟨rfl,rfl⟩

theorem effect_refused (b : Board σ) (c : Core σ) {m r : I2cMsg}
    (h : (Transaction.pair m r).Accepted) (hf : ¬ (m.len ≤ i2cBufLen ∧ r.len ≤ i2cBufLen)) :
    (effect b c (Transaction.pair m r).packet).answer = [] := by
  rw [effect,decode_packet h,decoded]
  by_cases hm : m.len ≤ i2cBufLen
  · have hr : ¬ r.len ≤ i2cBufLen := fun hr => hf ⟨hm,hr⟩
    rw [if_pos hm,if_neg hr]
    simp [runAll,Cmd.run,runWrite_answer]
  · rw [if_neg hm]
    rfl

/-- Whatever a packet answers are the bytes of its own read. -/
theorem effect_answer (b : Board σ) (c : Core σ) {t : Transaction} (h : t.Accepted)
    (hne : (effect b c t.packet).answer ≠ []) :
    ∃ m r, t = .pair m r ∧ (effect b c t.packet).answer.length = r.len ∧
      Ev.i2cRead (m.addr.setWidth 8) r.len true (effect b c t.packet).answer ∈
        (effect b c t.packet).log := by
  cases t with
  | write m =>
    by_cases hm : m.len ≤ i2cBufLen
    · exact absurd (effect_write b c h hm).2 hne
    · rw [effect,decode_packet h,decoded,if_neg hm] at hne
      exact absurd rfl hne
  | pair m r =>
    by_cases hf : m.len ≤ i2cBufLen ∧ r.len ≤ i2cBufLen
    · obtain ⟨hlog,hans⟩ := effect_pair b c h hf.1 hf.2
      by_cases hk : (readCall b c m r).1 = true
      · rw [if_pos hk] at hans
        refine ⟨m,r,rfl,by rw [hans,load_length],?_⟩
        rw [hlog,hans,hk]
        simp [readLog]
      · rw [if_neg hk] at hans
        exact absurd hans hne
    · exact absurd (effect_refused b c h hf) hne

theorem served_write (b : Board σ) {fw : Fw σ} (hi : fw.inBusy = false) {m : I2cMsg}
    (h : (Transaction.write m).Accepted) (hm : m.len ≤ i2cBufLen) :
    Served b fw (Transaction.write m).packet
      (writeLog (m.addr.setWidth 8) m.buf (writeCall b fw.core m).1) none := by
  have he := effect_write b fw.core h hm
  have hd : (commands.decode (Transaction.write m).packet).2 = .done := by
    rw [decode_packet h,decoded,if_pos hm]
  have hs := served_of_done b hi (packet_lt h) hd (by simp [he.2])
  rwa [he.1,he.2,if_pos rfl] at hs

theorem served_pair (b : Board σ) {fw : Fw σ} (hi : fw.inBusy = false) {m r : I2cMsg}
    (h : (Transaction.pair m r).Accepted) (hm : m.len ≤ i2cBufLen) (hr : r.len ≤ i2cBufLen) :
    Served b fw (Transaction.pair m r).packet
      (writeLog (m.addr.setWidth 8) m.buf (writeCall b fw.core m).1 ++
        readLog (m.addr.setWidth 8) r.len (load (readCall b fw.core m r).2.1 0 r.len)
          (readCall b fw.core m r).1)
      (if (readCall b fw.core m r).1 then some (load (readCall b fw.core m r).2.1 0 r.len)
        else none) := by
  have he := effect_pair b fw.core h hm hr
  have hd : (commands.decode (Transaction.pair m r).packet).2 = .done := by
    rw [decode_packet h,decoded,if_pos hm,if_pos hr]
  have hlen : (load (readCall b fw.core m r).2.1 0 r.len).length = r.len := load_length _ _ _
  obtain ⟨_,_,_,_,_,_,_,hr₁,hr₂⟩ := id h
  have hne : load (readCall b fw.core m r).2.1 0 r.len ≠ [] := by
    rw [← List.length_pos_iff,hlen]
    exact hr₁
  by_cases hk : (readCall b fw.core m r).1 = true
  · rw [if_pos hk] at he
    have hs := served_of_done b hi (packet_lt h) hd (by rw [he.2,hlen]; omega)
    rw [he.1,he.2,if_neg hne] at hs
    rwa [if_pos hk]
  · rw [if_neg hk] at he
    have hs := served_of_done b hi (packet_lt h) hd (by rw [he.2]; decide)
    rw [he.1,he.2,if_pos rfl] at hs
    rwa [if_neg hk]

/-- For every write message to a 7-bit address with 1 to 16 bytes, alone or with a
read of 1 to 16 bytes at the same address, and for every outcome of the I2C calls, the
firmware executes the packet of the driver as it was meant and answers the bytes read. -/
theorem packet_served (u : Usb υ) (b : Board σ) (x : Xfer υ) {fw : Fw σ}
    (hi : fw.inBusy = false) {m : I2cMsg} {a : Byte} (ha : m.addr.toNat = a.toNat)
    (h7 : a.toNat ≤ 0x7f) (hw : m.isRead = false ∧ m.isTen = false)
    (hm : 1 ≤ m.len ∧ m.len ≤ 16) :
    (∃ pkt, (i2cXfer u true [m] x).2.sent = x.sent ++ [pkt] ∧
      Served b fw pkt (writeLog a m.buf (b.i2cWrite a m.buf fw.core.world).1) none) ∧
    ∀ r : I2cMsg, r.isRead = true → r.addr = m.addr → 1 ≤ r.len → r.len ≤ 16 →
      let w := b.i2cWrite a m.buf fw.core.world
      let d := b.i2cRead a r.len (store fw.core.i2cbf 0 m.buf) w.2
      ∃ pkt, (i2cXfer u true [m,r] x).2.sent = x.sent ++ [pkt] ∧
        Served b fw pkt
          (writeLog a m.buf w.1 ++ readLog a r.len (load d.2.1 0 r.len) d.1)
          (if d.1 then some (load d.2.1 0 r.len) else none) := by
  obtain rfl : m.addr.setWidth 8 = a := by
    apply BitVec.eq_of_toNat_eq
    rw [BitVec.toNat_setWidth,ha,Nat.mod_eq_of_lt a.isLt]
  have hu : m.addr.toNat ≤ u8Max := by
    simp only [u8Max]
    omega
  constructor
  · have hacc : (Transaction.write m).Accepted := ⟨hu,hw.2,hw.1,hm.1,by omega⟩
    exact ⟨_,i2cXfer_sent u x hacc,served_write b hi hacc hm.2⟩
  · intro r hr hra hr₁ hr₂ w d
    have hacc : (Transaction.pair m r).Accepted :=
      ⟨hu,hw.2,hw.1,hm.1,by omega,hr,hra.symm,hr₁,by omega⟩
    exact ⟨_,i2cXfer_sent u x hacc,served_pair b hi hacc hm.2 hr₂⟩

/-- Every address and byte is acknowledged; the device sends `0x00 0x0e 0x47`. -/
def acking : Fw Ctl :=
  idle (Ctl.fresh (fun _ => 0x03) fun i => [0xff,0x00,0x0e,0x47].getD i 0)

def ackBoard : Board Ctl := board fun _ => 0

/-- The register number `0x8b` and a read of three bytes from the demodulator. -/
def selectMsg : I2cMsg := ⟨0x10,0,[0x8b],by decide⟩

def readMsg : I2cMsg := ⟨0x10,1,[0,0,0],by decide⟩

theorem select_accepted : (Transaction.pair selectMsg readMsg).Accepted := by
  refine ⟨?_,?_,?_,?_,?_,?_,?_,?_,?_⟩ <;> decide

/-- The example of the driver: three bytes from register `0x8b` of the demodulator. -/
theorem packet_served_sample :
    ∃ pkt, (i2cXfer (reliable []) true [selectMsg,readMsg] (Xfer.zero ())).2.sent = [pkt] ∧
      Served ackBoard acking pkt
        (writeLog 0x10 [0x8b] true ++ readLog 0x10 3 [0x00,0x0e,0x47] true)
        (some [0x00,0x0e,0x47]) :=
  (packet_served (reliable []) ackBoard (Xfer.zero ()) (rfl : acking.inBusy = false) (a := 0x10) rfl
    (by decide) ⟨rfl,rfl⟩ ⟨by decide,by decide⟩).2 _ rfl rfl (by decide) (by decide)

end Agreement
end AkbPcr20x
