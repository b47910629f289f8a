import AkbPcr20x.I2cFrames
import AkbPcr20x.I2cReceive
import AkbPcr20x.RegisterRead

/-! The driver's I2C calls down to the bus. Driver, endpoint 1, firmware and I2C engine
together are a master that carries out the transactions one after the other; a write that
did not arrive shows in the error count of the firmware only. -/
namespace AkbPcr20x
namespace EndToEnd

open Memory MainLoop Command I2cXfer I2cEngine I2cBus I2cCall I2cFrames Link Agreement RegisterRead

/-- A call of `i2c_write` with its result: the devices take its bytes over once or not at
all. -/
structure WriteOn (adrs : Byte) (data : List Byte) (ok : Bool) (s s' : Ctl) : Prop where
  call : Call (WriteEv (writeAddress adrs) data) 2 0 ok (events s s')
  takes : Takes s s' (if ok then [writeAddress adrs::data] else [])

/-- A call of `i2c_read` with its result and the bytes in its buffer. -/
structure ReadOn (adrs : Byte) (data : List Byte) (ok : Bool) (s s' : Ctl) : Prop where
  call : Call (fun e es => ∃ ds, ReadEv (readAddress adrs) data.length e es ds) 0 0 ok (events s s')
  takes : Takes s s' []
  received : ok = true → ∃ (pre t : List I2cReceive.RecvEv),
    I2cReceive.receptions s s' = pre ++ .start::t ∧ I2cReceive.Reception adrs data t

/-- What `i2c_xfer` returns and reads for a transaction, and how the two calls of the
engine went. Success of a pair is that of its read. -/
inductive Performed : Transaction → ℤ × List (ℕ × List Byte) → Bool × Bool → Ctl → Ctl → Prop
  | write {m s s'} {w : Bool} (hw : WriteOn (m.addr.setWidth 8) m.buf w s s') :
      Performed (.write m) (1,[]) (w,true) s s'
  | read {m r s s₁ s'} {w : Bool} {data : List Byte} (hl : data.length = r.len)
      (hw : WriteOn (m.addr.setWidth 8) m.buf w s s₁)
      (hr : ReadOn (m.addr.setWidth 8) data true s₁ s') :
      Performed (.pair m r) (2,[(1,data)]) (w,true) s s'
  | lost {m r s s₁ s'} {w : Bool} {data : List Byte} {e : ℤ} (he : e < 0) (hl : data.length = r.len)
      (hw : WriteOn (m.addr.setWidth 8) m.buf w s s₁)
      (hr : ReadOn (m.addr.setWidth 8) data false s₁ s') :
      Performed (.pair m r) (e,[]) (w,false) s s'

inductive PerformedAll : List Transaction → List (ℤ × List (ℕ × List Byte)) → List (Bool × Bool) →
    Ctl → Ctl → Prop
  | nil {s} : PerformedAll [] [] [] s s
  | cons {t ts o os k ks s s' s''} (h : Performed t o k s s') (hs : PerformedAll ts os ks s' s'') :
      PerformedAll (t::ts) (o::os) (k::ks) s s''

/-- The bytes that the device takes over when a transaction's write arrives. -/
def frameOf : Transaction → List Byte
  | .write m => writeAddress (m.addr.setWidth 8)::m.buf
  | .pair m _ => writeAddress (m.addr.setWidth 8)::m.buf

def arrived : List Transaction → List (Bool × Bool) → List (List Byte)
  | t::ts, k::ks => (if k.1 then [frameOf t] else []) ++ arrived ts ks
  | _, _ => []

variable {σ υ : Type}

def runCalls (u : Usb υ) : List Transaction → Xfer υ → List (ℤ × List (ℕ × List Byte)) × Xfer υ
  | [], x => ([],x)
  | t::ts, x =>
    let r := i2cXfer u true t.msgs x
    let rest := runCalls u ts r.2
    ((r.1,r.2.reads.drop x.reads.length)::rest.1,rest.2)

/-- Both endpoints wait for the host, and its transfers are carried out. -/
structure Ready (h : Host σ) : Prop where
  fate : h.fate = .done
  outBusy : h.fw.outBusy = true
  inBusy : h.fw.inBusy = false

/-- A transaction within the limits of driver and firmware, at a 7-bit address. -/
def Served (t : Transaction) : Prop :=
  t.Accepted ∧ Fits t ∧ ∀ m ∈ t.msgs, m.addr.toNat < 128

theorem i2cWrite_on (adrs : Byte) {data : List Byte} (h : data.length < 2^16) (s : Ctl) :
    WriteOn adrs data ((i2cWrite adrs data [] s).1.getD false) s (i2cWrite adrs data [] s).2 := by
  have ht := takes_write adrs data [] s
  obtain ⟨r,hr,hc⟩ := i2cWrite_called adrs data [] s
  obtain ⟨es,hcall,hm⟩ := hc.out
  have he : events s (i2cWrite adrs data [] s).2 = es := hm.events_eq
  rw [payload_nil h] at hcall ht
  rw [hr,Option.getD_some] at ht ⊢
  exact ⟨by rwa [he],ht⟩

theorem i2cRead_on {adrs : Byte} (ha : adrs < 0x80) {len : ℕ} (hl : 0 < len) (buf : Mem Byte)
    (s : Ctl) :
    ReadOn adrs (load (i2cRead adrs len buf s).2.1 0 len) ((i2cRead adrs len buf s).1.getD false) s
      (i2cRead adrs len buf s).2.2 := by
  obtain ⟨r,hr,hc⟩ := i2cRead_called adrs len buf s
  obtain ⟨es,hcall,hm⟩ := hc.out
  have he : events s (i2cRead adrs len buf s).2.2 = es := hm.events_eq
  have hrec := I2cReceive.i2cRead_received ha hl buf s
  rw [hr,Option.getD_some] at hrec ⊢
  exact ⟨by rwa [he,load_length],takes_read adrs len buf s,hrec⟩

theorem runWrite_errcnt (b : Board σ) (c : Core σ) (adrs : Byte) (data : List Byte) :
    let e := (runWrite b c adrs data).core
    e.i2cWriteErrcnt = c.i2cWriteErrcnt + BitVec.ofNat 16 (!(b.i2cWrite adrs data c.world).1).toNat ∧
      e.i2cReadErrcnt = c.i2cReadErrcnt := by
  simp only [runWrite]
  split_ifs with h <;> simp [h]

theorem runRead_core (b : Board σ) (c : Core σ) (adrs len : Byte) :
    let r := b.i2cRead adrs len.toNat c.i2cbf c.world
    let e := (runRead b c adrs len).core
    e.world = r.2.2 ∧ e.i2cReadErrcnt = c.i2cReadErrcnt + BitVec.ofNat 16 (!r.1).toNat ∧
      e.i2cWriteErrcnt = c.i2cWriteErrcnt := by
  simp only [runRead]
  split_ifs with h <;> simp [h]

theorem effect_write_core (b : Board σ) (c : Core σ) {m : I2cMsg}
    (h : (Transaction.write m).Accepted) (hm : m.len ≤ i2cBufLen) :
    let e := (effect b c (Transaction.write m).packet).core
    e.world = (writeCall b c m).2 ∧
      e.i2cWriteErrcnt = c.i2cWriteErrcnt + BitVec.ofNat 16 (!(writeCall b c m).1).toNat ∧
      e.i2cReadErrcnt = c.i2cReadErrcnt := by
  rw [effect,decode_packet h,decoded,if_pos hm]
  obtain ⟨hw,hr⟩ := runWrite_errcnt b c (m.addr.setWidth 8) m.buf
  exact ⟨(runWrite_core b c (m.addr.setWidth 8) m.buf).2,hw,hr⟩

theorem effect_pair_core (b : Board σ) (c : Core σ) {m r : I2cMsg}
    (h : (Transaction.pair m r).Accepted) (hm : m.len ≤ i2cBufLen) (hr : r.len ≤ i2cBufLen) :
    let e := (effect b c (Transaction.pair m r).packet).core
    e.world = (readCall b c m r).2.2 ∧
      e.i2cWriteErrcnt = c.i2cWriteErrcnt + BitVec.ofNat 16 (!(writeCall b c m).1).toNat ∧
      e.i2cReadErrcnt = c.i2cReadErrcnt + BitVec.ofNat 16 (!(readCall b c m r).1).toNat := by
  have hn : (BitVec.ofNat 8 r.len).toNat = r.len := by
    simp only [i2cBufLen] at hr
    rw [BitVec.toNat_ofNat]
    omega
  rw [effect,decode_packet h,decoded,if_pos hm,if_pos hr]
  obtain ⟨hb,hw⟩ := runWrite_core b c (m.addr.setWidth 8) m.buf
  obtain ⟨he,hd⟩ := runWrite_errcnt b c (m.addr.setWidth 8) m.buf
  have hc := runRead_core b (runWrite b c (m.addr.setWidth 8) m.buf).core (m.addr.setWidth 8)
    (BitVec.ofNat 8 r.len)
  rw [hn,hb,hw,he,hd] at hc
  exact ⟨hc.1,hc.2.2,hc.2.1⟩

theorem serve_core (b : Board σ) {pkt : List Byte} (hl : pkt.length < 256) {h : Host σ}
    (hr : Ready h) :
    (serve b pkt (poll b h)).fw.core = (effect b h.fw.core pkt).core ∧
      (serve b pkt (poll b h)).fw.outBusy = true ∧ (serve b pkt (poll b h)).fate = .done := by
  have hp : (poll b h).fw = h.fw := mainLoop_blocked b (by simp [hr.outBusy])
  have hm := @mainLoop_ready _ b (deliver h.fw pkt) rfl hr.inBusy
  rw [packet_deliver h.fw hl] at hm
  simp only [serve,hp]
  exact ⟨hm.1,hm.2,hr.fate⟩

theorem genericWrite_ready (b : Board σ) (pkt : List Byte) {h : Host σ} (hr : Ready h) :
    genericWrite b pkt h = (0,serve b pkt (poll b h)) := by
  have hp : (poll b h).fw = h.fw := mainLoop_blocked b (by simp [hr.outBusy])
  simp [genericWrite,hp,hr.outBusy,show (poll b h).fate = .done from hr.fate]

/-- A write message is always reported as done. -/
theorem i2cXfer_write_ready (b : Board σ) (x : Xfer (Host σ)) {m : I2cMsg}
    (h : (Transaction.write m).Accepted) (hr : Ready x.usb) :
    let r := i2cXfer (host b) true (Transaction.write m).msgs x
    r.1 = 1 ∧ r.2.reads = x.reads ∧
      r.2.usb = serve b (Transaction.write m).packet (poll b x.usb) := by
  have hp := (Transaction.write m).load_fill x.wbuf
  have hg := genericWrite_ready b (Transaction.write m).packet hr
  rw [Transaction.msgs,i2cXfer_write (host b) x h]
  simp only [submit,host,hp,hg]
  exact ⟨rfl,rfl,rfl⟩

theorem i2cXfer_pair_lost (b : Board σ) (x : Xfer (Host σ)) {m r : I2cMsg}
    (h : (Transaction.pair m r).Accepted)
    (hg : (genericRw b (Transaction.pair m r).packet r.len x.usb).1 < 0) :
    let g := genericRw b (Transaction.pair m r).packet r.len x.usb
    let o := i2cXfer (host b) true (Transaction.pair m r).msgs x
    o.1 < 0 ∧ o.2.reads = x.reads ∧ o.2.usb = g.2.2 := by
  have hp := (Transaction.pair m r).load_fill x.wbuf
  rw [Transaction.msgs,i2cXfer_pair (host b) x h]
  simp only [submit,host,hp,hg,if_true,ite_self]
  trivial

theorem ready_of_answer {f : Fw σ} (h : answer f = none) : f.inBusy = false := by
  rw [answer] at h
  split_ifs at h with hi
  simpa using hi

variable (pins : Sfr → Byte)

/-- What one call does, for every controller and every state of the buffers. -/
structure CallDone (t : Transaction) (x : Xfer (Host Ctl)) (o : List (ℕ × List Byte))
    (k : Bool × Bool) (r : ℤ × Xfer (Host Ctl)) : Prop where
  performed : Performed t (r.1,o) k x.usb.fw.core.world r.2.usb.fw.core.world
  reads : r.2.reads = x.reads ++ o
  ready : Ready r.2.usb
  writeErrcnt : r.2.usb.fw.core.i2cWriteErrcnt =
    x.usb.fw.core.i2cWriteErrcnt + BitVec.ofNat 16 (!k.1).toNat
  readErrcnt : r.2.usb.fw.core.i2cReadErrcnt =
    x.usb.fw.core.i2cReadErrcnt + BitVec.ofNat 16 (!k.2).toNat

theorem write_done (x : Xfer (Host Ctl)) {m : I2cMsg} (h : Served (.write m)) (hr : Ready x.usb) :
    ∃ o k, CallDone (.write m) x o k
      (i2cXfer (host (board pins)) true (Transaction.write m).msgs x) := by
  obtain ⟨ha,hf,_⟩ := h
  have hm : m.len ≤ i2cBufLen := hf m (by simp [Transaction.msgs])
  obtain ⟨h1,hreads,husb⟩ := i2cXfer_write_ready (board pins) x ha hr
  obtain ⟨hcore,hout,hfate⟩ := serve_core (board pins) (packet_lt ha) hr
  obtain ⟨hw,hwe,hre⟩ := effect_write_core (board pins) x.usb.fw.core ha hm
  have hin := ready_of_answer (served_write (board pins) hr.inBusy ha hm).answer_eq
  have hp : (poll (board pins) x.usb).fw = x.usb.fw := mainLoop_blocked _ (by simp [hr.outBusy])
  refine ⟨[],((writeCall (board pins) x.usb.fw.core m).1,true),?_,by rw [hreads,List.append_nil],
    ⟨?_,?_,?_⟩,?_,?_⟩
  · rw [h1,husb,hcore,hw]
    refine .write (i2cWrite_on _ ?_ _)
    simp only [i2cBufLen,I2cMsg.len] at hm
    omega
  · rw [husb]
    exact hfate
  · rw [husb]
    exact hout
  · rw [husb,serve,hp]
    exact hin
  · rw [husb,hcore,hwe]
  · rw [husb,hcore,hre]
    simp

theorem pair_on {m r : I2cMsg} (h : Served (.pair m r)) (c : Core Ctl) :
    WriteOn (m.addr.setWidth 8) m.buf (writeCall (board pins) c m).1 c.world
        (writeCall (board pins) c m).2 ∧
      ReadOn (m.addr.setWidth 8) (load (readCall (board pins) c m r).2.1 0 r.len)
        (readCall (board pins) c m r).1 (writeCall (board pins) c m).2
        (readCall (board pins) c m r).2.2 := by
  obtain ⟨⟨_,_,_,_,_,_,_,hpos,_⟩,hf,h7⟩ := h
  have hm : m.len ≤ i2cBufLen := hf m (by simp [Transaction.msgs])
  have hadr : m.addr.setWidth 8 < (0x80 : Byte) := by
    have hlt := h7 m (by simp [Transaction.msgs])
    rw [BitVec.lt_def,BitVec.toNat_setWidth]
    change _ < 128
    omega
  refine ⟨i2cWrite_on _ ?_ _,i2cRead_on hadr hpos _ _⟩
  simp only [i2cBufLen,I2cMsg.len] at hm
  omega

theorem pair_done (x : Xfer (Host Ctl)) {m r : I2cMsg} (h : Served (.pair m r))
    (hr : Ready x.usb) :
    ∃ o k, CallDone (.pair m r) x o k
      (i2cXfer (host (board pins)) true (Transaction.pair m r).msgs x) := by
  obtain ⟨hwrite,hread⟩ := pair_on pins h x.usb.fw.core
  obtain ⟨ha,hf,_⟩ := h
  have hm : m.len ≤ i2cBufLen := hf m (by simp [Transaction.msgs])
  have hl : r.len ≤ i2cBufLen := hf r (by simp [Transaction.msgs])
  have hp : (poll (board pins) x.usb).fw = x.usb.fw := mainLoop_blocked _ (by simp [hr.outBusy])
  have ho : (mainLoop (board pins) x.usb.fw).outBusy = true := by
    rw [mainLoop_blocked _ (by simp [hr.outBusy]),hr.outBusy]
  have hg := genericRw_done (board pins) (Transaction.pair m r).packet r.len ho hr.fate
  have hi : (poll (board pins) x.usb).fw.inBusy = false := hp ▸ hr.inBusy
  obtain ⟨_,hans⟩ := serve_free (board pins) ha hi
  obtain ⟨hcore,hout,hfate⟩ := serve_core (board pins) (packet_lt ha) hr
  obtain ⟨hw,hwe,hre⟩ := effect_pair_core (board pins) x.usb.fw.core ha hm hl
  rw [hp] at hans
  simp only [hm,hl,true_and] at hans
  generalize serve (board pins) (Transaction.pair m r).packet (poll (board pins) x.usb) = h'
    at hg hans hcore hout hfate
  cases hk : (readCall (board pins) x.usb.fw.core m r).1 with
  | true =>
    rw [hk] at hread hre
    rw [if_pos hk] at hans
    rw [bulkIn_some hans (load_length _ _ _).le] at hg
    obtain ⟨h2,hu,hrd⟩ := (i2cXfer_host (board pins) x ha).2 (by rw [hg])
    rw [hg] at hu hrd
    simp only [load_store_load] at hrd
    rw [Transaction.msgs]
    refine ⟨_,((writeCall (board pins) x.usb.fw.core m).1,true),?_,hrd,?_,?_,?_⟩
    · rw [h2,hu,takeAnswer,hcore,hw]
      exact .read (load_length _ _ _) hwrite hread
    · rw [hu]
      exact ⟨hfate,hout,rfl⟩
    · rw [hu,takeAnswer,hcore,hwe]
    · rw [hu,takeAnswer,hcore,hre]
  | false =>
    rw [hk] at hread hre
    rw [if_neg (by rw [hk]; decide)] at hans
    have hb : bulkIn r.len h' = (-Errno.etimedout,[],h') := by simp [bulkIn,hans]
    rw [hb] at hg
    obtain ⟨he,hrd,hu⟩ := i2cXfer_pair_lost (board pins) x ha
      (by rw [hg]; exact (by decide : -Errno.etimedout < 0))
    rw [hg] at hu
    refine ⟨[],((writeCall (board pins) x.usb.fw.core m).1,false),?_,
      by rw [hrd,List.append_nil],?_,?_,?_⟩
    · rw [hu,hcore,hw]
      exact .lost he (load_length _ _ _) hwrite hread
    · rw [hu]
      exact ⟨hfate,hout,ready_of_answer hans⟩
    · rw [hu,hcore,hwe]
    · rw [hu,hcore,hre]

theorem call_done (x : Xfer (Host Ctl)) {t : Transaction} (h : Served t) (hr : Ready x.usb) :
    ∃ o k, CallDone t x o k (i2cXfer (host (board pins)) true t.msgs x) := by
  cases t with
  | write m => exact write_done pins x h hr
  | pair m r => exact pair_done pins x h hr

def lostWrites (ks : List (Bool × Bool)) : ℕ := ks.countP (!·.1)
def lostReads (ks : List (Bool × Bool)) : ℕ := ks.countP (!·.2)

theorem runCalls_performed {ts : List Transaction} (ht : ∀ t ∈ ts, Served t)
    {x : Xfer (Host Ctl)} (hr : Ready x.usb) :
    let r := runCalls (host (board pins)) ts x
    let c := x.usb.fw.core
    let c' := r.2.usb.fw.core
    Ready r.2.usb ∧ ∃ ks, PerformedAll ts r.1 ks c.world c'.world ∧
      c'.i2cWriteErrcnt = c.i2cWriteErrcnt + BitVec.ofNat 16 (lostWrites ks) ∧
      c'.i2cReadErrcnt = c.i2cReadErrcnt + BitVec.ofNat 16 (lostReads ks) := by
  induction ts generalizing x with
  | nil => exact ⟨hr,[],.nil,(BitVec.add_zero _).symm,(BitVec.add_zero _).symm⟩
  | cons t ts ih =>
    rw [List.forall_mem_cons] at ht
    obtain ⟨o,k,hd⟩ := call_done pins x ht.1 hr
    obtain ⟨hready,ks,hp,hw,hre⟩ := ih ht.2 hd.ready
    have ho : (i2cXfer (host (board pins)) true t.msgs x).2.reads.drop x.reads.length = o := by
      rw [hd.reads,List.drop_left]
    refine ⟨hready,k::ks,?_,?_,?_⟩
    · rw [runCalls,ho]
      exact .cons hd.performed hp
    · refine hw.trans ?_
      rw [hd.writeErrcnt,BitVec.add_assoc,← BitVec.ofNat_add]
      simp only [lostWrites,List.countP_cons]
      cases k.1 <;> simp [Nat.add_comm]
    · refine hre.trans ?_
      rw [hd.readErrcnt,BitVec.add_assoc,← BitVec.ofNat_add]
      simp only [lostReads,List.countP_cons]
      cases k.2 <;> simp [Nat.add_comm]

theorem Performed.takes {t : Transaction} {o : ℤ × List (ℕ × List Byte)} {k : Bool × Bool}
    {s s' : Ctl} (h : Performed t o k s s') : Takes s s' (if k.1 then [frameOf t] else []) := by
  cases h with
  | write hw => exact hw.takes
  | read hl hw hr =>
    have ht := hw.takes.trans hr.takes
    rwa [List.append_nil] at ht
  | lost he hl hw hr =>
    have ht := hw.takes.trans hr.takes
    rwa [List.append_nil] at ht

theorem PerformedAll.takes {ts : List Transaction} {os : List (ℤ × List (ℕ × List Byte))}
    {ks : List (Bool × Bool)} {s s' : Ctl} (h : PerformedAll ts os ks s s') :
    Takes s s' (arrived ts ks) := by
  induction h with
  | nil => exact .refl _
  | cons h _ ih => exact h.takes.trans ih

theorem PerformedAll.length {ts : List Transaction} {os : List (ℤ × List (ℕ × List Byte))}
    {ks : List (Bool × Bool)} {s s' : Ctl} (h : PerformedAll ts os ks s s') :
    ks.length = ts.length := by
  induction h with
  | nil => rfl
  | cons _ _ ih => rw [List.length_cons,ih,List.length_cons]

/-- A counter that fewer than 2^16 failures have not moved has seen none. -/
theorem countP_eq_zero_of_word {α : Type} {p : α → Bool} {l : List α} {w : Word}
    (hl : l.length < 2^16) (h : w + BitVec.ofNat 16 (l.countP p) = w) : l.countP p = 0 := by
  have hle := l.countP_le_length (p:=p)
  bv_omega

/-- Whatever the bus does, a list of transactions is carried out one by one, and the devices
take over each write at most once and in order. A read that is reported as done returns the
bytes that the device sent; a write is reported as done in any case, but the two counters of
the firmware tell how many calls failed, so that counters that did not move in fewer than
2^16 calls mean that everything arrived. -/
theorem calls_performed (ts : List Transaction) (ht : ∀ t ∈ ts, Served t) (x : Xfer (Host Ctl))
    (hr : Ready x.usb) :
    let r := runCalls (host (board pins)) ts x
    let c := x.usb.fw.core
    let c' := r.2.usb.fw.core
    Ready r.2.usb ∧ ∃ ks, PerformedAll ts r.1 ks c.world c'.world ∧
      frames (events c.world c'.world) = arrived ts ks ∧
      c'.i2cWriteErrcnt = c.i2cWriteErrcnt + BitVec.ofNat 16 (lostWrites ks) ∧
      c'.i2cReadErrcnt = c.i2cReadErrcnt + BitVec.ofNat 16 (lostReads ks) ∧
      (ts.length < 2^16 → c'.i2cWriteErrcnt = c.i2cWriteErrcnt →
        c'.i2cReadErrcnt = c.i2cReadErrcnt → ∀ k ∈ ks, k = (true,true)) := by
  intro r c c'
  obtain ⟨hready,ks,hp,hw,hre⟩ := runCalls_performed pins ht hr
  refine ⟨hready,ks,hp,hp.takes.frames_eq,hw,hre,fun hlt hsw hsr k hk => ?_⟩
  have hlen : ks.length < 2^16 := hp.length ▸ hlt
  have h₁ := countP_eq_zero_of_word hlen (hw.symm.trans hsw)
  have h₂ := countP_eq_zero_of_word hlen (hre.symm.trans hsr)
  rw [List.countP_eq_zero] at h₁ h₂
  have hk₁ := h₁ k hk
  have hk₂ := h₂ k hk
  simp only [Bool.not_eq_true,Bool.not_eq_false'] at hk₁ hk₂
  exact Prod.ext hk₁ hk₂

theorem calls_performed_sample :
    ∃ ks, frames (events acking.core.world
      (runCalls (host ackBoard) [.pair selectMsg readMsg,.write selectMsg]
        (Xfer.zero ⟨acking,.done,[]⟩)).2.usb.fw.core.world) =
      arrived [.pair selectMsg readMsg,.write selectMsg] ks := by
  have hs : Served (.pair selectMsg readMsg) := by
    refine ⟨select_accepted,?_,?_⟩ <;> simp [Fits,Transaction.msgs] <;> decide
  have hw : Served (.write selectMsg) := by
    refine ⟨?_,?_,?_⟩ <;> simp [Fits,Transaction.msgs,Transaction.Accepted] <;> decide
  obtain ⟨_,ks,_,hf,_⟩ := calls_performed (fun _ => 0) [.pair selectMsg readMsg,.write selectMsg]
    (List.forall_mem_cons.mpr ⟨hs,List.forall_mem_singleton.mpr hw⟩)
    (Xfer.zero ⟨acking,.done,[]⟩) ⟨rfl,rfl,rfl⟩
  exact ⟨ks,hf⟩

end EndToEnd
end AkbPcr20x
