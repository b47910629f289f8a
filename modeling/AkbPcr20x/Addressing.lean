import AkbPcr20x.Agreement
import AkbPcr20x.I2cOutcome

/-! Which I2C transactions the driver and the firmware agree on. The packets of a call are
followed through the firmware to the address bytes that its calls of the I2C engine put on
the bus. Beyond the limits of the firmware the driver still reports success for a write
that the firmware drops, or sends to another device. -/
namespace AkbPcr20x
namespace Addressing

open MainLoop Command I2cXfer I2cEngine I2cBus I2cCall I2cOutcome Link Agreement Transducer

/-- The byte behind a START is an address byte. -/
def addressing : Bool → BusEv → Bool × List Byte
  | _, .start => (true,[])
  | true, .sent v => (false,[v])
  | _, _ => (false,[])

def addressBytes (es : List BusEv) : List Byte := (run addressing false es).2

variable {a : Byte} {bs : List Byte} {e : Ending} {es : List BusEv}

theorem run_data (h : DataEv bs e es) : run addressing false es = (false,[]) := by
  induction h with
  | @next v bs e es h ih => simp only [run,addressing,ih,List.nil_append]
  | _ => rfl

theorem run_write (h : WriteEv a bs e es) (p : Bool) :
    ∃ vs, run addressing p es = (false,vs) ∧ ∀ v ∈ vs, v = a := by
  cases h with
  | noStart => exact ⟨[],rfl,fun v hv => absurd hv List.not_mem_nil⟩
  | data h =>
    refine ⟨[a],?_,fun v => List.mem_singleton.mp⟩
    simp only [run,addressing,run_data h,List.nil_append,List.append_nil]
  | _ => exact ⟨[a],rfl,fun v => List.mem_singleton.mp⟩

theorem run_lastrdIf (last : Prop) [Decidable last] :
    run addressing false (lastrdIf last) = (false,[]) := by
  unfold lastrdIf
  split_ifs <;> rfl

theorem run_fetch {n : ℕ} {ds : List Byte} (h : FetchEv n e es ds) :
    run addressing false es = (false,[]) := by
  induction h with
  | @next n v e es ds h ih =>
    have hg : run addressing false (.got v::es) = (false,[]) := by
      simp only [run,addressing,ih,List.nil_append]
    exact run_append (run_lastrdIf (n = 0)) hg
  | _ => rfl

theorem run_read {len : ℕ} {ds : List Byte} (h : ReadEv a len e es ds) (p : Bool) :
    ∃ vs, run addressing p es = (false,vs) ∧ ∀ v ∈ vs, v = a := by
  cases h with
  | noStart => exact ⟨[],rfl,fun v hv => absurd hv List.not_mem_nil⟩
  | @data v e es ds h =>
    have hg : run addressing false (.got v::es) = (false,[]) := by
      simp only [run,addressing,run_fetch h,List.nil_append]
    have hr := run_append (run_lastrdIf (len = 1)) hg
    refine ⟨[a],?_,fun v => List.mem_singleton.mp⟩
    simp only [run,addressing,hr,List.nil_append,List.append_nil]
  | _ => exact ⟨[a],rfl,fun v => List.mem_singleton.mp⟩

theorem run_call {A : Ending → List BusEv → Prop}
    (hA : ∀ e es, A e es → ∀ p, ∃ vs, run addressing p es = (false,vs) ∧ ∀ v ∈ vs, v = a)
    {tries berrs : ℕ} {r : Bool} (h : Call A tries berrs r es) (p : Bool) :
    ∃ vs, run addressing p es = (false,vs) ∧ ∀ v ∈ vs, v = a := by
  induction h generalizing p with
  | ret ha _ => exact hA _ _ ha p
  | again ha _ _ ih =>
    obtain ⟨vs,hr,hv⟩ := hA _ _ ha p
    obtain ⟨ws,hr',hw⟩ := ih false
    refine ⟨vs ++ ws,run_append hr hr',fun v hm => ?_⟩
    rcases List.mem_append.mp hm with hm | hm
    · exact hv v hm
    · exact hw v hm

/-- From `s` to `s'` the address bytes `vs` go out, and the bus is left alone. -/
def Addresses (s s' : Ctl) (vs : List Byte) : Prop :=
  ∃ es, Grows observe s.trace s'.trace .off .off es ∧ run addressing false es = (false,vs)

variable {s s' s'' : Ctl} {vs vs' : List Byte}

theorem Addresses.refl (s : Ctl) : Addresses s s [] := ⟨[],.refl observe s.trace .off,rfl⟩

theorem Addresses.trans (h : Addresses s s' vs) (h' : Addresses s' s'' vs') :
    Addresses s s'' (vs ++ vs') := by
  obtain ⟨es,hg,hr⟩ := h
  obtain ⟨es',hg',hr'⟩ := h'
  exact ⟨es ++ es',hg.trans hg',run_append hr hr'⟩

theorem Addresses.bytes_eq (h : Addresses s s' vs) : addressBytes (events s s') = vs := by
  obtain ⟨es,hg,hr⟩ := h
  have he : events s s' = es := hg.events_eq
  rw [he,addressBytes,hr]

def address : Request → Byte
  | .write addr _ _ => writeAddress addr
  | .read addr _ _ => readAddress addr

theorem addresses_call (q : Request) (s : Ctl) :
    ∃ vs, Addresses s (q.call s).2 vs ∧ ∀ v ∈ vs, v = address q := by
  obtain ⟨r,_,hc⟩ := q.call_called s
  obtain ⟨es,hcall,hm⟩ := hc.out
  have hA : ∀ e es, q.attempt e es → ∀ p, ∃ vs, run addressing p es = (false,vs) ∧
      ∀ v ∈ vs, v = address q := by
    intro e es ha p
    cases q with
    | write addr addrBuf dataBuf => exact run_write ha p
    | read addr len buf =>
      obtain ⟨ds,hr⟩ := ha
      exact run_read hr p
  obtain ⟨vs,hr,hv⟩ := run_call hA hcall false
  exact ⟨vs,⟨es,hm.trace,hr⟩,hv⟩

def cmdAddress : Cmd → Option Byte
  | .i2cWrite adrs _ => some (writeAddress adrs)
  | .i2cRead adrs _ => some (readAddress adrs)
  | _ => none

variable (pins : Sfr → Byte)

theorem addresses_run (c : Core Ctl) (k : Cmd) :
    ∃ vs, Addresses c.world (k.run (board pins) c).core.world vs ∧ ∀ v ∈ vs, cmdAddress k = some v := by
  cases k with
  | i2cRead adrs len =>
    have hw : (runRead (board pins) c adrs len).core.world =
        ((Request.read adrs len.toNat c.i2cbf).call c.world).2 := by
      simp only [runRead]
      split <;> rfl
    obtain ⟨vs,ha,hv⟩ := addresses_call (.read adrs len.toNat c.i2cbf) c.world
    exact ⟨vs,by rwa [Cmd.run,hw],fun v hm => congrArg some (hv v hm).symm⟩
  | i2cWrite adrs data =>
    have hw := (runWrite_core (board pins) c adrs data).2
    obtain ⟨vs,ha,hv⟩ := addresses_call (.write adrs data []) c.world
    exact ⟨vs,by rwa [Cmd.run,hw],fun v hm => congrArg some (hv v hm).symm⟩
  | _ => exact ⟨[],.refl c.world,fun v hm => absurd hm List.not_mem_nil⟩

theorem addresses_runAll (ks : List Cmd) (c : Core Ctl) :
    ∃ vs, Addresses c.world (runAll (board pins) c ks).core.world vs ∧
      ∀ v ∈ vs, ∃ k ∈ ks, cmdAddress k = some v := by
  induction ks generalizing c with
  | nil => exact ⟨[],.refl c.world,fun v hm => absurd hm List.not_mem_nil⟩
  | cons k ks ih =>
    obtain ⟨vs,ha,hv⟩ := addresses_run pins c k
    obtain ⟨ws,hb,hw⟩ := ih (k.run (board pins) c).core
    refine ⟨vs ++ ws,ha.trans hb,fun v hm => ?_⟩
    rcases List.mem_append.mp hm with hm | hm
    · exact ⟨k,List.mem_cons_self,hv v hm⟩
    · obtain ⟨k',hk,hk'⟩ := hw v hm
      exact ⟨k',List.mem_cons_of_mem _ hk,hk'⟩

/-- The address bytes on the bus while the firmware runs a packet. -/
def packetAddresses (fw : Fw Ctl) (pkt : List Byte) : List Byte :=
  addressBytes (events fw.core.world (pass (board pins) (deliver fw pkt)).core.world)

theorem pass_core (fw : Fw Ctl) {t : Transaction} (h : t.Accepted) :
    (pass (board pins) (deliver fw t.packet)).core =
      (runAll (board pins) fw.core (decoded t).1).core := by
  rw [(pass_deliver (board pins) fw (packet_lt h)).core,effect,decode_packet h]

theorem packetAddresses_decoded (fw : Fw Ctl) {t : Transaction} (h : t.Accepted) {v : Byte}
    (hv : v ∈ packetAddresses pins fw t.packet) : ∃ k ∈ (decoded t).1, cmdAddress k = some v := by
  obtain ⟨vs,ha,hk⟩ := addresses_runAll pins (decoded t).1 fw.core
  rw [packetAddresses,pass_core pins fw h,ha.bytes_eq] at hv
  exact hk v hv

theorem writeAddress_shift (a : Byte) : (writeAddress a >>> 1).toNat = a.toNat % 128 := by
  revert a
  decide

theorem readAddress_shift (a : Byte) : (readAddress a >>> 1).toNat = a.toNat % 128 := by
  revert a
  decide

/-- The engine drops the top bit of the address that the driver has accepted. -/
theorem packetAddresses_shift (fw : Fw Ctl) {t : Transaction} (h : t.Accepted) {v : Byte}
    (hv : v ∈ packetAddresses pins fw t.packet) {m : I2cMsg} (hm : m ∈ t.msgs) :
    (v >>> 1).toNat = m.addr.toNat % 128 := by
  have hmod (w : Word) : (w.setWidth 8).toNat % 128 = w.toNat % 128 := by
    rw [BitVec.toNat_setWidth]
    omega
  have hshift (k : Cmd) (w : Word) (hk : cmdAddress k = some v)
      (hw : (∃ data, k = .i2cWrite (w.setWidth 8) data) ∨ ∃ len, k = .i2cRead (w.setWidth 8) len) :
      (v >>> 1).toNat = w.toNat % 128 := by
    rcases hw with ⟨data,rfl⟩ | ⟨len,rfl⟩
    · rw [← Option.some.inj hk,writeAddress_shift,hmod]
    · rw [← Option.some.inj hk,readAddress_shift,hmod]
  obtain ⟨k,hk,hkv⟩ := packetAddresses_decoded pins fw h hv
  cases t with
  | write w =>
    obtain rfl := List.mem_singleton.mp hm
    refine hshift k m.addr hkv ?_
    simp only [decoded] at hk
    split_ifs at hk
    · exact Or.inl ⟨_,List.mem_singleton.mp hk⟩
    · exact absurd hk List.not_mem_nil
  | pair w r =>
    obtain ⟨_,_,_,_,_,_,ha,_⟩ := h
    have hadr : m.addr = w.addr := by
      simp only [Transaction.msgs,List.mem_cons,List.not_mem_nil,or_false] at hm
      rcases hm with rfl | rfl
      · rfl
      · exact ha.symm
    rw [hadr]
    refine hshift k w.addr hkv ?_
    simp only [decoded] at hk
    split_ifs at hk
    · simp only [List.mem_cons,List.not_mem_nil,or_false] at hk
      rcases hk with hk | hk
      · exact Or.inl ⟨_,hk⟩
      · exact Or.inr ⟨_,hk⟩
    · exact Or.inl ⟨_,List.mem_singleton.mp hk⟩
    · exact absurd hk List.not_mem_nil

/-- A controller that answers nothing still sees the address byte of a write. -/
theorem addresses_silent (c : Core Ctl) (h : ∀ k, c.world.i2cs k = 0) (adrs : Byte)
    (data : List Byte) :
    Addresses c.world (runWrite (board pins) c adrs data).core.world [writeAddress adrs] := by
  obtain ⟨vs,ha,_⟩ := addresses_call (.write adrs data []) c.world
  have hb : addressBytes ((Request.write adrs data []).bus c.world) = vs := ha.bytes_eq
  rw [bus_stuck adrs data [] c.world h] at hb
  obtain rfl : [writeAddress adrs] = vs := hb
  rw [(runWrite_core (board pins) c adrs data).2]
  exact ha

theorem packetAddresses_silent (fw : Fw Ctl) (h : ∀ k, fw.core.world.i2cs k = 0)
    {t : Transaction} (ht : t.Accepted) (hf : Fits t) :
    ∃ v, v ∈ packetAddresses pins fw t.packet := by
  obtain ⟨adrs,data,ks,hd⟩ : ∃ adrs data ks, (decoded t).1 = Cmd.i2cWrite adrs data::ks := by
    cases t with
    | write m =>
      have hm : m.len ≤ i2cBufLen := hf m (by simp [Transaction.msgs])
      exact ⟨_,_,_,by rw [decoded,if_pos hm]⟩
    | pair m r =>
      have hm : m.len ≤ i2cBufLen := hf m (by simp [Transaction.msgs])
      have hr : r.len ≤ i2cBufLen := hf r (by simp [Transaction.msgs])
      exact ⟨_,_,_,by rw [decoded,if_pos hm,if_pos hr]⟩
  obtain ⟨ws,hb,_⟩ := addresses_runAll pins ks (runWrite (board pins) fw.core adrs data).core
  have ha : Addresses fw.core.world (runAll (board pins) fw.core (decoded t).1).core.world
      ([writeAddress adrs] ++ ws) := by
    rw [hd]
    exact (addresses_silent pins fw.core h adrs data).trans hb
  refine ⟨writeAddress adrs,?_⟩
  rw [packetAddresses,pass_core pins fw ht,ha.bytes_eq]
  exact List.mem_cons_self

variable {υ : Type}

theorem complete_iff {σ : Type} (b : Board σ) (fw : Fw σ) {t : Transaction} (h : t.Accepted) :
    (pass b (deliver fw t.packet)).aborted = false ↔ Fits t := by
  have ha := (pass_deliver b fw (packet_lt h)).aborted
  rw [decode_packet h] at ha
  rw [ha,← decoded_done_iff]
  cases (decoded t).2 <;> simp [start]

/-- In some state the firmware puts the address byte `v` on the bus for the packet that
carries the message. -/
def OnBus (ts : List Transaction) (m : I2cMsg) (v : Byte) : Prop :=
  ∃ t ∈ ts, m ∈ t.msgs ∧ ∃ pins fw, v ∈ packetAddresses pins fw t.packet

/-- Whatever the controller does, the firmware runs every packet to its end, no two messages
with different addresses share an address byte, and none goes to another device. -/
structure Agreed (ts : List Transaction) : Prop where
  complete : ∀ pins fw, ∀ t ∈ ts, (pass (board pins) (deliver fw t.packet)).aborted = false
  apart : ∀ m m' v, OnBus ts m v → OnBus ts m' v → m.addr = m'.addr
  own : ∀ m v, OnBus ts m v → (v >>> 1).toNat = m.addr.toNat

theorem agreed_iff {ts : List Transaction} (h : ∀ t ∈ ts, t.Accepted) :
    Agreed ts ↔ (∀ m ∈ ts.flatMap Transaction.msgs, m.len ≤ i2cBufLen) ∧
      ∀ m ∈ ts.flatMap Transaction.msgs, m.addr.toNat < 128 := by
  constructor
  · intro ha
    have hf : ∀ t ∈ ts, Fits t := fun t ht => (complete_iff (board fun _ => 0)
      (idle (Ctl.fresh (fun _ => 0) fun _ => 0)) (h t ht)).mp (ha.complete _ _ t ht)
    constructor
    · intro m hm
      obtain ⟨t,ht,hmt⟩ := List.mem_flatMap.mp hm
      exact hf t ht m hmt
    · intro m hm
      obtain ⟨t,ht,hmt⟩ := List.mem_flatMap.mp hm
      obtain ⟨v,hv⟩ := packetAddresses_silent (fun _ => 0)
        (idle (Ctl.fresh (fun _ => 0) fun _ => 0)) (fun _ => rfl) (h t ht) (hf t ht)
      have ho := ha.own m v ⟨t,ht,hmt,_,_,hv⟩
      have hs := packetAddresses_shift _ _ (h t ht) hv hmt
      omega
  · rintro ⟨hl,h7⟩
    have hown : ∀ m v, OnBus ts m v → (v >>> 1).toNat = m.addr.toNat := by
      rintro m v ⟨t,ht,hm,pins,fw,hv⟩
      rw [packetAddresses_shift pins fw (h t ht) hv hm,
        Nat.mod_eq_of_lt (h7 m (List.mem_flatMap.mpr ⟨t,ht,hm⟩))]
    refine ⟨fun pins fw t ht => ?_,fun m m' v hm hm' => ?_,hown⟩
    · exact (complete_iff _ fw (h t ht)).mpr fun m hm => hl m (List.mem_flatMap.mpr ⟨t,ht,hm⟩)
    · exact BitVec.eq_of_toNat_eq ((hown m v hm).symm.trans (hown m' v hm'))

/-- For every message list that the driver reports as done, the firmware runs all its packets
and addresses the devices that were meant if and only if no message is longer than 16 bytes
and all addresses have seven bits. -/
theorem agreement_iff (u : Usb υ) (lock : Bool) (msgs : List I2cMsg) {x : Xfer υ}
    (hx : x.sent = []) (h : (i2cXfer u lock msgs x).1 = msgs.length) :
    ∃ ts, (∀ t ∈ ts, t.Accepted) ∧ ts.flatMap Transaction.msgs = msgs ∧
      (i2cXfer u lock msgs x).2.sent = ts.map Transaction.packet ∧
      (Agreed ts ↔ (∀ m ∈ msgs, m.len ≤ i2cBufLen) ∧ ∀ m ∈ msgs, m.addr.toNat < 128) := by
  obtain ⟨ts,hts,hsent,⟨_,rfl⟩ | ⟨hneg,_⟩⟩ := i2cXfer_spec u lock msgs x
  · exact ⟨ts,hts,rfl,by rw [hsent,hx,List.nil_append],agreed_iff hts⟩
  · omega

/-- A register read of the ISDB-T demodulator, then a register write of the ISDB-S one. -/
def twoDevices : List I2cMsg := [selectMsg,readMsg,⟨0x11,0,[0x06,0x40],by decide⟩]

theorem agreement_sample :
    ∃ ts, ts.flatMap Transaction.msgs = twoDevices ∧
      (i2cXfer (reliable [0,0,0]) true twoDevices (Xfer.zero ())).2.sent =
        ts.map Transaction.packet ∧ Agreed ts := by
  obtain ⟨ts,_,hm,hs,hiff⟩ := agreement_iff (reliable [0,0,0]) true twoDevices
    (rfl : (Xfer.zero ()).sent = []) rfl
  refine ⟨ts,hm,hs,hiff.mpr ⟨?_,?_⟩⟩
  · simp [twoDevices,selectMsg,readMsg,I2cMsg.len,i2cBufLen]
  · simp [twoDevices,selectMsg,readMsg]

/-- A write of 17 bytes is reported as done and dropped, and a write to `0x90` goes out with
the address byte of a write to `0x10`. -/
theorem disagreement_sample :
    ((i2cXfer (reliable []) true [⟨0x10,0,List.replicate 17 0,by decide⟩] (Xfer.zero ())).1 = 1 ∧
      ∃ pkt, (i2cXfer (reliable []) true [⟨0x10,0,List.replicate 17 0,by decide⟩]
          (Xfer.zero ())).2.sent = [pkt] ∧ (pass ackBoard (deliver acking pkt)).aborted = true) ∧
    (i2cXfer (reliable []) true [⟨0x10,0,[0],by decide⟩,⟨0x90,0,[0],by decide⟩]
        (Xfer.zero ())).1 = 2 ∧
      ∃ p q, (i2cXfer (reliable []) true [⟨0x10,0,[0],by decide⟩,⟨0x90,0,[0],by decide⟩]
          (Xfer.zero ())).2.sent = [p,q] ∧
        packetAddresses (fun _ => 0) acking p = [0x20] ∧
        packetAddresses (fun _ => 0) acking q = [0x20] := by
  refine ⟨⟨rfl,_,rfl,?_⟩,rfl,_,_,rfl,?_,?_⟩ <;> decide +kernel

end Addressing
end AkbPcr20x
