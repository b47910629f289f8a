import AkbPcr20x.I2cEngine
import AkbPcr20x.Link
import AkbPcr20x.Transition

/-! The control packets of the driver and the streaming state of the firmware. In
every run that starts with the packet of `akb_pcr20x_transfer_init`, the FIFO and the
mode pins follow the last call of `akb_pcr20x_streaming_ctrl`, whatever I2C packets
are mixed in. -/
namespace AkbPcr20x
namespace Streaming

open Memory MainLoop Command I2cXfer Link Transition

variable {σ υ : Type}

def fx2Ep6inStart : Byte := 0x50
def fx2Ep6inStop : Byte := 0x51
def fx2PortCfg : Byte := 0x54
def fx2PortWrite : Byte := 0x58
def fx2Ifconfig : Byte := 0x59
def fx2ModeIdle : Byte := 0x5a
def fx2PioStart : Byte := 0x20

/-- The three packets without I2C commands. -/
inductive Control
  | init
  | on
  | off
  deriving DecidableEq

def Control.stores : Control → List Store
  | .init => [.put 0 fx2PortCfg,.put 1 0,.put 2 fx2PioStart,.put 3 fx2ModeIdle,
      .put 4 fx2Ifconfig,.put 5 0xe3]
  | .on => [.put 0 fx2Ep6inStart,.put 1 fx2PortWrite,.put 2 fx2PioStart]
  | .off => [.put 0 fx2Ep6inStop,.put 1 fx2ModeIdle]

def Control.wlen : Control → ℕ
  | .init => 6
  | .on => 3
  | .off => 2

def Control.packet : Control → List Byte
  | .init => [fx2PortCfg,0,fx2PioStart,fx2ModeIdle,fx2Ifconfig,0xe3]
  | .on => [fx2Ep6inStart,fx2PortWrite,fx2PioStart]
  | .off => [fx2Ep6inStop,fx2ModeIdle]

def sendControl (u : Usb υ) (c : Control) (x : Xfer υ) : ℤ × Xfer υ :=
  let wbuf := fill x.wbuf c.stores
  let packet := load wbuf 0 c.wlen
  let r := u.genericWrite packet x.usb
  (if r.1 < 0 then r.1 else 0,{x with wbuf := wbuf, usb := r.2, sent := x.sent ++ [packet]})

def transferInit (u : Usb υ) (x : Xfer υ) : ℤ × Xfer υ := sendControl u .init x

def streamingCtrl (u : Usb υ) (on : Bool) (x : Xfer υ) : ℤ × Xfer υ :=
  if on then sendControl u .on x else sendControl u .off x

/-- The call behind a control packet. -/
def Control.call (u : Usb υ) (x : Xfer υ) : Control → ℤ × Xfer υ
  | .init => transferInit u x
  | .on => streamingCtrl u true x
  | .off => streamingCtrl u false x

theorem Control.load_fill (c : Control) (wbuf : Mem Byte) :
    load (fill wbuf c.stores) 0 c.wlen = c.packet := by
  cases c <;> rfl

theorem sendControl_sent (u : Usb υ) (c : Control) (x : Xfer υ) :
    (sendControl u c x).2.sent = x.sent ++ [c.packet] := by
  simp only [sendControl,c.load_fill]

theorem Control.call_sent (u : Usb υ) (x : Xfer υ) (c : Control) :
    (c.call u x).2.sent = x.sent ++ [c.packet] := by
  cases c <;> exact sendControl_sent u _ x

/-- A packet that some call of `transferInit` or `streamingCtrl` sends. -/
def ControlPacket (c : Control) (pkt : List Byte) : Prop :=
  ∃ (υ : Type) (u : Usb υ) (x : Xfer υ), x.sent = [] ∧ pkt ∈ (c.call u x).2.sent

theorem ControlPacket.packet_eq {c : Control} {pkt : List Byte} (h : ControlPacket c pkt) :
    pkt = c.packet := by
  obtain ⟨υ,u,x,hx,hm⟩ := h
  rw [c.call_sent,hx,List.nil_append] at hm
  exact List.mem_singleton.mp hm

/-- A packet that some call of `i2cXfer` sends. -/
def I2cPacket (pkt : List Byte) : Prop :=
  ∃ (υ : Type) (u : Usb υ) (lock : Bool) (msgs : List I2cMsg) (x : Xfer υ),
    x.sent = [] ∧ pkt ∈ (i2cXfer u lock msgs x).2.sent

theorem I2cPacket.exists_transaction {pkt : List Byte} (h : I2cPacket pkt) :
    ∃ t : Transaction, t.Accepted ∧ pkt = t.packet := by
  obtain ⟨υ,u,lock,msgs,x,hx,hm⟩ := h
  obtain ⟨ts,hts,hsent,_⟩ := i2cXfer_spec u lock msgs x
  rw [hsent,hx,List.nil_append,List.mem_map] at hm
  obtain ⟨t,ht,rfl⟩ := hm
  exact ⟨t,hts t ht,rfl⟩

/-- The firmware behind the packet of `transferInit`. -/
structure Ready (c : Core σ) : Prop where
  addrMask : c.addrMask = 0x3f
  valIfconfig : c.valIfconfig = 0xe3
  oed : c.sfr .oed &&& 0xc0 = 0xc0

/-- The mode pins say START and EP6 hands its packets over by itself. -/
def Active (c : Core σ) : Prop := c.sfr .iod &&& 0xc0 = modeStart ∧ c.sfr .ep6fifocfg = 0x0c

theorem decode_init : (commands.decode Control.init.packet).1 =
    [.portCfg 0 0x20,.modeIdle,.ifconfig 0xe3] := by
  rw [commands.decode_ok (b := .portCfg 0 0x20) (q := [fx2ModeIdle,fx2Ifconfig,0xe3]) rfl,
    commands.decode_ok (b := .modeIdle) (q := [fx2Ifconfig,0xe3]) rfl,
    commands.decode_ok (b := .ifconfig 0xe3) (q := []) rfl,commands.decode_error (e := .done) rfl]

theorem decode_on : (commands.decode Control.on.packet).1 = [.ep6inStart,.portWrite 0x20] := by
  rw [commands.decode_ok (b := .ep6inStart) (q := [fx2PortWrite,fx2PioStart]) rfl,
    commands.decode_ok (b := .portWrite 0x20) (q := []) rfl,commands.decode_error (e := .done) rfl]

theorem decode_off : (commands.decode Control.off.packet).1 = [.ep6inStop,.modeIdle] := by
  rw [commands.decode_ok (b := .ep6inStop) (q := [fx2ModeIdle]) rfl,
    commands.decode_ok (b := .modeIdle) (q := []) rfl,commands.decode_error (e := .done) rfl]

theorem idle_bits (v : Byte) : (MainLoop.modeIdle ||| (v &&& 0x3f)) &&& 0xc0 = 0 := by
  revert v
  decide

theorem start_bits (v : Byte) : (modeStart ||| (v &&& 0x3f)) &&& 0xc0 = 0xc0 := by
  revert v
  decide

theorem write_bits (v : Byte) : ((v &&& ~~~ 0x3f) ||| 0x20) &&& 0xc0 = v &&& 0xc0 := by
  revert v
  decide

theorem port_bits {l oe p k : Byte} (h : oe &&& k = k) :
    ((l &&& oe) ||| (p &&& ~~~ oe)) &&& k = l &&& k := by
  ext i hi
  have hb := congrArg (fun v : Byte => v[i]) h
  simp only [BitVec.getElem_and] at hb
  simp only [BitVec.getElem_and,BitVec.getElem_or,BitVec.getElem_not]
  cases ho : oe[i] <;> simp_all

theorem effect_init (b : Board σ) (c : Core σ) :
    Ready (effect b c Control.init.packet).core ∧
      ¬ Active (effect b c Control.init.packet).core := by
  rw [effect,decode_init]
  have ho : (runAll b c [.portCfg 0 0x20,.modeIdle,.ifconfig 0xe3]).core.sfr .oed = 0xe0 := rfl
  refine ⟨⟨rfl,rfl,by rw [ho]; rfl⟩,fun h => ?_⟩
  exact absurd (h.1.symm.trans (idle_bits _)) (by decide)

theorem effect_on (b : Board σ) {c : Core σ} (h : Ready c) :
    Ready (effect b c Control.on.packet).core ∧ Active (effect b c Control.on.packet).core ∧
      (effect b c Control.on.packet).core.sfr .ifconfig = 0xe3 := by
  have hiod : (effect b c Control.on.packet).core.sfr .iod &&& 0xc0 = modeStart := by
    let c' := (Cmd.ep6inStart.run b c).core
    have he : (effect b c Control.on.packet).core.sfr .iod =
        (portValue b c' .iod .oed &&& ~~~ c.addrMask) ||| 0x20 := by
      rw [effect,decode_on]
      rfl
    have hoe : c'.sfr .oed &&& 0xc0 = 0xc0 := h.oed
    rw [he,h.addrMask,write_bits,portValue,port_bits hoe]
    exact start_bits _
  rw [effect,decode_on] at hiod ⊢
  exact ⟨⟨h.addrMask,h.valIfconfig,h.oed⟩,⟨hiod,rfl⟩,h.valIfconfig⟩

theorem effect_off (b : Board σ) {c : Core σ} (h : Ready c) :
    Ready (effect b c Control.off.packet).core ∧ ¬ Active (effect b c Control.off.packet).core ∧
      (effect b c Control.off.packet).core.sfr .ifconfig = c.sfr .ifconfig := by
  rw [effect,decode_off]
  refine ⟨⟨h.addrMask,h.valIfconfig,h.oed⟩,fun ha => ?_,rfl⟩
  exact absurd (ha.1.symm.trans (idle_bits _)) (by decide)

/-- The registers and masks that I2C commands do not touch. -/
structure SamePorts (c c' : Core σ) : Prop where
  sfr : c'.sfr = c.sfr
  valIfconfig : c'.valIfconfig = c.valIfconfig
  addrMask : c'.addrMask = c.addrMask

theorem runWrite_samePorts (b : Board σ) (c : Core σ) (adrs : Byte) (data : List Byte) :
    SamePorts c (runWrite b c adrs data).core := by
  simp only [runWrite]
  split_ifs <;> exact ⟨rfl,rfl,rfl⟩

theorem runRead_samePorts (b : Board σ) (c : Core σ) (adrs len : Byte) :
    SamePorts c (runRead b c adrs len).core := by
  simp only [runRead]
  split_ifs <;> exact ⟨rfl,rfl,rfl⟩

theorem SamePorts.trans {c c' c'' : Core σ} (h : SamePorts c c') (h' : SamePorts c' c'') :
    SamePorts c c'' :=
  ⟨h'.sfr.trans h.sfr,h'.valIfconfig.trans h.valIfconfig,h'.addrMask.trans h.addrMask⟩

/-- An I2C packet leaves the ports alone, also when the firmware refuses a part of it. -/
theorem effect_i2c (b : Board σ) (c : Core σ) {pkt : List Byte} (h : I2cPacket pkt) :
    SamePorts c (effect b c pkt).core := by
  obtain ⟨t,ht,rfl⟩ := h.exists_transaction
  have hn : SamePorts c c := ⟨rfl,rfl,rfl⟩
  rw [effect,decode_packet ht]
  cases t with
  | write m =>
    rw [decoded]
    split_ifs
    · exact runWrite_samePorts b c _ _
    · exact hn
  | pair m r =>
    rw [decoded]
    split_ifs
    · exact (runWrite_samePorts b c _ _).trans (runRead_samePorts b _ _ _)
    · exact runWrite_samePorts b c _ _
    · exact hn

/-- A packet on its way from the driver. -/
inductive Call
  | control (c : Control) (pkt : List Byte) (h : ControlPacket c pkt)
  | i2c (pkt : List Byte) (h : I2cPacket pkt)

def Call.packet : Call → List Byte
  | .control _ pkt _ => pkt
  | .i2c pkt _ => pkt

def Call.control? : Call → Option Control
  | .control c _ _ => some c
  | .i2c _ _ => none

def Call.isInit (c : Call) : Bool := c.control? = some .init

/-- The host puts a packet into EP1OUT, the firmware polls, the host takes an answer. -/
inductive Action
  | out (c : Call)
  | poll
  | take

/-- The firmware, the packet that waits in EP1OUT and the packets executed so far. -/
structure Session (σ : Type) where
  fw : Fw σ
  pending : Option Call
  done : List Call

/-- The packet of `transferInit` comes first and only then. A poll executes the waiting
packet unless EP1IN is busy. -/
def step (b : Board σ) (s : Session σ) : Action → Option (Session σ)
  | .out c =>
    if s.fw.outBusy ∧ c.isInit = s.done.isEmpty then
      some {s with fw := deliver s.fw c.packet, pending := some c}
    else none
  | .poll =>
    if s.fw.outBusy = false ∧ s.fw.inBusy = false then
      some ⟨mainLoop b s.fw,none,s.done ++ s.pending.toList⟩
    else some {s with fw := mainLoop b s.fw}
  | .take => if s.fw.inBusy then some {s with fw := {s.fw with inBusy := false}} else none

def Session.begin (fw : Fw σ) : Session σ := ⟨{fw with outBusy := true},none,[]⟩

/-- The last call of `streamingCtrl` turned the stream on. -/
def lastOn (cs : List Call) : Bool :=
  cs.foldl (fun on c => match c.control? with
    | some .on => true
    | some .off => false
    | _ => on) false

structure Inv (s : Session σ) : Prop where
  waiting : s.fw.outBusy = true ∧ s.pending = none ∨
    s.fw.outBusy = false ∧ ∃ c, s.pending = some c ∧ packet s.fw = c.packet ∧
      c.isInit = s.done.isEmpty
  ready : s.done ≠ [] → Ready s.fw.core ∧ (Active s.fw.core ↔ lastOn s.done = true)
  ifconfig : (∃ c ∈ s.done, c.control? = some .on) → s.fw.core.sfr .ifconfig = 0xe3

theorem lastOn_snoc (cs : List Call) (c : Call) :
    lastOn (cs ++ [c]) = match c.control? with
      | some .on => true
      | some .off => false
      | _ => lastOn cs := by
  rw [lastOn,List.foldl_append]
  rfl

theorem SamePorts.ready {c c' : Core σ} (h : SamePorts c c') (hr : Ready c) : Ready c' :=
  ⟨h.addrMask.trans hr.addrMask,h.valIfconfig.trans hr.valIfconfig,by rw [h.sfr]; exact hr.oed⟩

theorem Call.packet_lt (c : Call) : c.packet.length < 256 := by
  cases c with
  | control c pkt h =>
    rw [Call.packet,h.packet_eq]
    cases c <;> decide
  | i2c pkt h =>
    obtain ⟨t,ht,he⟩ := h.exists_transaction
    rw [Call.packet,he]
    exact Link.packet_lt ht

theorem inv_execute (b : Board σ) {s : Session σ} (hs : Inv s) (ho : s.fw.outBusy = false)
    (hi : s.fw.inBusy = false) : Inv ⟨mainLoop b s.fw,none,s.done ++ s.pending.toList⟩ := by
  obtain ⟨hcore,hout⟩ := mainLoop_ready b ho hi
  rcases hs.waiting with ⟨hb,_⟩ | ⟨_,c,hc,hp,hinit⟩
  · simp [ho] at hb
  rw [hp] at hcore
  have hnew : s.done ++ s.pending.toList = s.done ++ [c] := by rw [hc]; rfl
  rw [hnew]
  have hready : c.isInit = false → Ready s.fw.core ∧ (Active s.fw.core ↔ lastOn s.done = true) := by
    intro hn
    exact hs.ready (by rw [hn] at hinit; simpa using hinit.symm)
  refine ⟨Or.inl ⟨hout,rfl⟩,fun _ => ?_,fun hon => ?_⟩
  · simp only [hcore,lastOn_snoc]
    rcases c with ⟨_ | _ | _,pkt,hpkt⟩ | ⟨pkt,hpkt⟩
    · have he := effect_init b s.fw.core
      rw [← hpkt.packet_eq] at he
      have hd : s.done = [] := by simpa [Call.isInit,Call.control?] using hinit.symm
      simpa [hd,lastOn,Call.packet,Call.control?] using he
    · have he := effect_on b (hready rfl).1
      rw [← hpkt.packet_eq] at he
      exact ⟨he.1,by simpa [Call.packet,Call.control?] using he.2.1⟩
    · have he := effect_off b (hready rfl).1
      rw [← hpkt.packet_eq] at he
      exact ⟨he.1,by simpa [Call.packet,Call.control?] using he.2.1⟩
    · have he := effect_i2c b s.fw.core hpkt
      refine ⟨he.ready (hready rfl).1,?_⟩
      rw [Active,Call.packet,he.sfr]
      exact (hready rfl).2
  · simp only [hcore]
    -- another call than the last one has been a start
    have hold (hc : c.control? ≠ some .on) : ∃ c ∈ s.done, c.control? = some .on := by
      obtain ⟨c',hm,hc'⟩ := hon
      rcases List.mem_append.mp hm with hm | hm
      · exact ⟨c',hm,hc'⟩
      · rw [List.mem_singleton.mp hm] at hc'
        exact absurd hc' hc
    rcases c with ⟨_ | _ | _,pkt,hpkt⟩ | ⟨pkt,hpkt⟩
    · have hd : s.done = [] := by simpa [Call.isInit,Call.control?] using hinit.symm
      obtain ⟨c',hm,_⟩ := hold nofun
      rw [hd] at hm
      cases hm
    · rw [Call.packet,hpkt.packet_eq]
      exact (effect_on b (hready rfl).1).2.2
    · rw [Call.packet,hpkt.packet_eq]
      exact (effect_off b (hready rfl).1).2.2.trans (hs.ifconfig (hold nofun))
    · have hm := hold nofun
      rw [Call.packet,(effect_i2c b s.fw.core hpkt).sfr]
      exact hs.ifconfig hm

theorem inv_step (b : Board σ) {s s' : Session σ} {a : Action} (hs : Inv s)
    (h : step b s a = some s') : Inv s' := by
  cases a with
  | out c =>
    simp only [step,Option.ite_none_right_eq_some,Option.some.injEq] at h
    obtain ⟨⟨_,hc⟩,rfl⟩ := h
    exact ⟨Or.inr ⟨rfl,c,rfl,packet_deliver s.fw c.packet_lt,hc⟩,hs.ready,hs.ifconfig⟩
  | poll =>
    by_cases hr : s.fw.outBusy = false ∧ s.fw.inBusy = false
    · simp only [step,if_pos hr,Option.some.injEq] at h
      subst h
      exact inv_execute b hs hr.1 hr.2
    · simp only [step,if_neg hr,mainLoop_blocked b hr,Option.some.injEq] at h
      subst h
      exact hs
  | take =>
    simp only [step,Option.ite_none_right_eq_some,Option.some.injEq] at h
    obtain ⟨_,rfl⟩ := h
    exact ⟨hs.waiting,hs.ready,hs.ifconfig⟩

theorem inv_run (b : Board σ) (fw : Fw σ) {as : List Action} {s : Session σ}
    (h : Exec (step b) (Session.begin fw) as s) : Inv s :=
  h.invariant (fun _ _ _ hi ht => inv_step b hi ht)
    ⟨Or.inl ⟨rfl,rfl⟩,fun hn => absurd rfl hn,fun ⟨_,hm,_⟩ => absurd hm List.not_mem_nil⟩

/-- In every run over packets that calls of the driver send: after each executed packet the stream
is on exactly when the last call of `streamingCtrl` turned it on, IFCONFIG is `0xe3` from the first
such call on, and no I2C packet changes a port, a FIFO register or a mask. -/
theorem streaming_follows (b : Board σ) (fw : Fw σ) {as : List Action} {s : Session σ}
    (h : Exec (step b) (Session.begin fw) as s) :
    (s.done ≠ [] → (Active s.fw.core ↔ lastOn s.done = true)) ∧
      ((∃ c ∈ s.done, c.control? = some .on) → s.fw.core.sfr .ifconfig = 0xe3) ∧
      ∀ pkt, I2cPacket pkt → SamePorts s.fw.core (mainLoop b (deliver s.fw pkt)).core := by
  have hs := inv_run b fw h
  refine ⟨fun hn => (hs.ready hn).2,hs.ifconfig,fun pkt hp => ?_⟩
  by_cases hi : s.fw.inBusy = false
  · have hl : pkt.length < 256 := (Call.i2c pkt hp).packet_lt
    have hc := (mainLoop_ready b (rfl : (deliver s.fw pkt).outBusy = false) hi).1
    rw [packet_deliver s.fw hl] at hc
    rw [hc]
    exact effect_i2c b s.fw.core hp
  · have hb : ¬ ((deliver s.fw pkt).outBusy = false ∧ (deliver s.fw pkt).inBusy = false) :=
      fun hr => hi hr.2
    rw [mainLoop_blocked b hb]
    exact ⟨rfl,rfl,rfl⟩

def Control.sent (c : Control) : Call :=
  .control c c.packet ⟨Unit,reliable [],Xfer.zero (),rfl,by
    rw [c.call_sent]
    exact List.mem_singleton_self _⟩

def selectSent : Call :=
  .i2c [0x61,0x10,0x01,0x8b]
    ⟨Unit,reliable [],true,[⟨0x10,0,[0x8b],by decide⟩],Xfer.zero (),rfl,by decide⟩

/-- Initialisation, a start, an I2C write, and a stop that the firmware has not polled yet. -/
def stopPending : List Action :=
  [.out Control.init.sent,.poll,.out Control.on.sent,.poll,.out selectSent,.poll,
    .out Control.off.sent]

theorem streaming_follows_sample :
    let b := I2cEngine.board fun _ => 0
    let fw := idle (I2cEngine.Ctl.fresh (fun _ => 0x03) fun _ => 0)
    ∃ s, Exec (step b) (Session.begin fw) stopPending s ∧ s.done.length = 3 ∧ lastOn s.done = true ∧
      Active s.fw.core ∧ s.fw.core.sfr .ifconfig = 0xe3 := by
  intro b fw
  have hr : (run (step (I2cEngine.board fun _ => 0)) (Session.begin (idle (I2cEngine.Ctl.fresh
      (fun _ => 0x03) fun _ => 0))) stopPending).map
        (fun s => (s.done.length,lastOn s.done,s.done.any fun c => c.control? = some .on)) =
      some (3,true,true) := by decide +kernel
  obtain ⟨s,hs,hd⟩ := Option.map_eq_some_iff.mp hr
  simp only [Prod.mk.injEq] at hd
  have h := exec_of_run hs
  have hne : s.done ≠ [] := List.ne_nil_of_length_eq_add_one hd.1
  have hon : ∃ c ∈ s.done, c.control? = some .on := by simpa using hd.2.2
  obtain ⟨hactive,hif,_⟩ := streaming_follows b fw h
  exact ⟨s,h,hd.1,hd.2.1,(hactive hne).mpr hd.2.1,hif hon⟩

end Streaming
end AkbPcr20x
