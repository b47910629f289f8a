import AkbPcr20x.Endpoint
import AkbPcr20x.Latest

/-! The port and FIFO registers under any packets. The commands and what the pins of port D
showed them determine all registers, whatever the I2C bus does. The two mode pins are always
driven, so that the commands alone determine the mode. -/
namespace AkbPcr20x
namespace Ports

open Memory MainLoop Command Link

variable {σ : Type}

def modePins : Byte := 0xc0

/-- The registers, and the statics that the commands keep beside them. -/
structure Panel where
  sfr : Sfr → Byte
  valIfconfig : Byte
  addrMask : Byte

/-- The mode pins are outputs, and REG commands do not take them from the pins. -/
structure Panel.Driven (p : Panel) : Prop where
  mask : p.addrMask &&& modePins = 0
  oed : p.sfr .oed &&& modePins = modePins

def panel (c : Core σ) : Panel := ⟨c.sfr,c.valIfconfig,c.addrMask⟩

def Panel.set (p : Panel) (ws : List (Sfr × Byte)) : Panel :=
  {p with sfr := ws.foldl (fun s w => Function.update s w.1 w.2) p.sfr}

def Panel.portD (p : Panel) (pins : Byte) : Byte :=
  (p.sfr .iod &&& p.sfr .oed) ||| (pins &&& ~~~ p.sfr .oed)

def Panel.start (p : Panel) (ws : List (Sfr × Byte)) (pins mode : Byte) : Panel :=
  p.set (ws ++ [(.iod,mode ||| (p.portD pins &&& 0x3f))])

def Panel.step (p : Panel) (e : Cmd × Byte) : Panel :=
  match e.1 with
  | .regWrite addr value =>
    p.set [(.iod,modeRegw ||| (p.portD e.2 &&& p.addrMask) ||| addr),(.ifconfig,0xe0),(.oeb,0xff),
      (.iob,value)]
  | .regRead addr =>
    p.set [(.iod,modeRegr ||| (p.portD e.2 &&& p.addrMask) ||| addr),(.ifconfig,0xe0),(.oeb,0x00)]
  | .portWrite value => p.set [(.iod,(p.portD e.2 &&& ~~~ p.addrMask) ||| value)]
  | .portCfg mask dir =>
    {p.set [(.oed,dir ||| (mask ||| 0xc0))] with addrMask := ~~~ (mask ||| 0xc0)}
  | .ifconfig value => {p with valIfconfig := value}
  | .ep6inStart =>
    p.start [(.ifconfig,p.valIfconfig),(.fiforeset,0x06),(.ep6fifocfg,0x0c)] e.2 modeStart
  | .ep6inStop => p.set [(.ep6fifocfg,0x04)]
  | .ep4inStart =>
    p.start [(.ifconfig,p.valIfconfig),(.fiforeset,0x04),(.ep4fifocfg,0x0c)] e.2 modeStart
  | .ep4inStop => p.set [(.ep4fifocfg,0x04)]
  | .ep2outStart =>
    p.start [(.ifconfig,p.valIfconfig),(.fiforeset,0x02),(.outpktend,0x82),(.outpktend,0x82),
      (.outpktend,0x82),(.outpktend,0x82),(.ep2fifocfg,0x10)] e.2 modeStart
  | .ep2outStop => p.set [(.ep2fifocfg,0x04)]
  | .modeIdle => p.start [] e.2 MainLoop.modeIdle
  | _ => p

def mode (m : Byte) : Cmd → Byte
  | .regWrite addr _ => (modeRegw ||| addr) &&& modePins
  | .regRead addr => (modeRegr ||| addr) &&& modePins
  | .portWrite value => m ||| (value &&& modePins)
  | .ep6inStart => modeStart
  | .ep4inStart => modeStart
  | .ep2outStart => modeStart
  | .modeIdle => MainLoop.modeIdle
  | _ => m

theorem compl_and_of_eq {m p : Byte} (h : m &&& p = p) : ~~~ m &&& p = 0 := by
  calc ~~~ m &&& p = ~~~ m &&& (m &&& p) := by rw [h]
    _ = 0 := by rw [← BitVec.and_assoc]; simp

theorem compl_and_of_zero {m p : Byte} (h : m &&& p = 0) : ~~~ m &&& p = p := by
  have hx : (m &&& p) ||| (~~~ m &&& p) = BitVec.allOnes 8 &&& p := by
    rw [← BitVec.and_or_distrib_right]
    simp
  rw [h,BitVec.allOnes_and] at hx
  simpa using hx

theorem or_mask_and (m p : Byte) : (m ||| p) &&& p = p := by
  ext i hi
  rw [BitVec.getElem_and,BitVec.getElem_or]
  cases m[i] <;> cases p[i] <;> rfl

variable {b : Board σ} {c₀ : Core σ} {p : Panel}

theorem Panel.Driven.portD_and (h : p.Driven) (pins : Byte) :
    p.portD pins &&& modePins = p.sfr .iod &&& modePins := by
  rw [Panel.portD,BitVec.and_or_distrib_right,BitVec.and_assoc,h.oed,BitVec.and_assoc,
    compl_and_of_eq h.oed]
  simp

theorem Panel.Driven.regMode_and (h : p.Driven) (v mode addr : Byte) :
    (mode ||| (v &&& p.addrMask) ||| addr) &&& modePins = (mode ||| addr) &&& modePins := by
  simp only [BitVec.and_or_distrib_right,BitVec.and_assoc,h.mask]
  simp

theorem startMode_and (mode v : Byte) : (mode ||| (v &&& 0x3f)) &&& modePins = mode &&& modePins := by
  rw [BitVec.and_or_distrib_right,BitVec.and_assoc,show (0x3f : Byte) &&& modePins = 0 from rfl]
  simp

theorem Panel.set_of_not_mem (p : Panel) {ws : List (Sfr × Byte)} {r : Sfr}
    (h : r ∉ ws.map (·.1)) : (p.set ws).sfr r = p.sfr r := by
  have hs : ∀ s : Sfr → Byte, ws.foldl (fun s w => Function.update s w.1 w.2) s r = s r := by
    induction ws with
    | nil => exact fun s => rfl
    | cons w ws ih =>
      intro s
      rw [List.map_cons,List.mem_cons,not_or] at h
      exact (ih h.2 _).trans (Function.update_of_ne h.1 _ _)
  exact hs p.sfr

/-- Only PORT_CFG touches the direction of the mode pins, and it leaves them outputs. -/
theorem Panel.Driven.step (h : p.Driven) (k : Cmd) (v : Byte) : (p.step (k,v)).Driven := by
  have hset {ws : List (Sfr × Byte)} (hn : Sfr.oed ∉ ws.map (·.1)) : (p.set ws).Driven :=
    ⟨h.mask,by rw [p.set_of_not_mem hn]; exact h.oed⟩
  cases k with
  | portCfg mask dir =>
    refine ⟨compl_and_of_eq (or_mask_and mask modePins),?_⟩
    have ho : (p.step (.portCfg mask dir,v)).sfr .oed = dir ||| (mask ||| 0xc0) := by
      simp [Panel.step,Panel.set]
    calc (p.step (.portCfg mask dir,v)).sfr .oed &&& modePins
        = ((dir ||| mask) ||| modePins) &&& modePins := by rw [ho,BitVec.or_assoc]; rfl
      _ = modePins := or_mask_and (dir ||| mask) modePins
  | regWrite addr value => exact hset (by simp)
  | regRead addr => exact hset (by simp)
  | portWrite value => exact hset (by simp)
  | ifconfig value => exact ⟨h.mask,h.oed⟩
  | ep6inStart => exact hset (by simp)
  | ep6inStop => exact hset (by simp)
  | ep4inStart => exact hset (by simp)
  | ep4inStop => exact hset (by simp)
  | ep2outStart => exact hset (by simp)
  | ep2outStop => exact hset (by simp)
  | modeIdle => exact hset (by simp)
  | _ => exact h

/-- The mode does not depend on what the pins show. -/
theorem Panel.Driven.mode_step (h : p.Driven) (k : Cmd) (v : Byte) :
    (p.step (k,v)).sfr .iod &&& modePins = mode (p.sfr .iod &&& modePins) k := by
  have hlast (ws : List (Sfr × Byte)) (m : Byte) : (p.start ws v m).sfr .iod &&& modePins =
      m &&& modePins := by
    have hs : (p.start ws v m).sfr .iod = m ||| (p.portD v &&& 0x3f) := by
      simp [Panel.start,Panel.set]
    rw [hs,startMode_and]
  cases k with
  | regWrite addr value =>
    simp [Panel.step,Panel.set,mode,h.regMode_and]
  | regRead addr =>
    simp [Panel.step,Panel.set,mode,h.regMode_and]
  | portWrite value =>
    have hc : ~~~ p.addrMask &&& modePins = modePins := compl_and_of_zero h.mask
    have hs : (p.step (.portWrite value,v)).sfr .iod = (p.portD v &&& ~~~ p.addrMask) ||| value := by
      simp [Panel.step,Panel.set]
    rw [hs,BitVec.and_or_distrib_right,BitVec.and_assoc,hc,h.portD_and,mode]
  | portCfg mask dir => simp [Panel.step,Panel.set,mode]
  | ep6inStart => exact hlast _ modeStart
  | ep4inStart => exact hlast _ modeStart
  | ep2outStart => exact hlast _ modeStart
  | modeIdle => exact hlast _ MainLoop.modeIdle
  | ep6inStop => simp [Panel.step,Panel.set,mode]
  | ep4inStop => simp [Panel.step,Panel.set,mode]
  | ep2outStop => simp [Panel.step,Panel.set,mode]
  | _ => rfl

/-- A start command reads port D behind its first writes, none of which is to the port. -/
theorem panel_runStart (b : Board σ) (c : Core σ) {ws : List (Sfr × Byte)} (mode : Byte)
    (hd : Sfr.iod ∉ ws.map (·.1)) (he : Sfr.oed ∉ ws.map (·.1)) :
    panel (runStart b c ws mode).core = (panel c).start ws (b.pins .iod c.world).1 mode := by
  have hv : portValue b (setSfrs c ws) .iod .oed = (panel c).portD (b.pins .iod c.world).1 := by
    have h₁ : (setSfrs c ws).sfr .iod = c.sfr .iod := (panel c).set_of_not_mem hd
    have h₂ : (setSfrs c ws).sfr .oed = c.sfr .oed := (panel c).set_of_not_mem he
    rw [portValue,h₁,h₂]
    rfl
  rw [Panel.start,← hv]
  rfl

theorem panel_run (b : Board σ) (c : Core σ) (k : Cmd) :
    panel (k.run b c).core = (panel c).step (k,(b.pins .iod c.world).1) := by
  cases k with
  | i2cRead adrs len =>
    simp only [Cmd.run,runRead]
    split_ifs <;> rfl
  | i2cWrite adrs data =>
    simp only [Cmd.run,runWrite]
    split_ifs <;> rfl
  | ep6inStart => exact panel_runStart b c _ (by simp) (by simp)
  | ep4inStart => exact panel_runStart b c _ (by simp) (by simp)
  | ep2outStart => exact panel_runStart b c _ (by simp) (by simp)
  | modeIdle => exact panel_runStart b c _ (by simp) (by simp)
  | _ => rfl

/-- Commands in order, each with what the pins of port D show it. -/
def trail (b : Board σ) : Core σ → List Cmd → List (Cmd × Byte)
  | _, [] => []
  | c, k::ks => (k,(b.pins .iod c.world).1)::trail b (k.run b c).core ks

theorem trail_cmds (b : Board σ) (c : Core σ) (ks : List Cmd) :
    (trail b c ks).map Prod.fst = ks := by
  induction ks generalizing c with
  | nil => rfl
  | cons k ks ih => exact congrArg (k::·) (ih _)

theorem panel_runAll (b : Board σ) (c : Core σ) (ks : List Cmd) :
    panel (runAll b c ks).core = (trail b c ks).foldl Panel.step (panel c) := by
  induction ks generalizing c with
  | nil => rfl
  | cons k ks ih =>
    rw [trail,List.foldl_cons,← panel_run]
    exact ih _

theorem Panel.Driven.foldl (h : p.Driven) (done : List (Cmd × Byte)) :
    (done.foldl Panel.step p).Driven ∧
      (done.foldl Panel.step p).sfr .iod &&& modePins =
        (done.map Prod.fst).foldl mode (p.sfr .iod &&& modePins) := by
  induction done generalizing p with
  | nil => exact ⟨h,rfl⟩
  | cons e done ih =>
    rw [List.foldl_cons,List.map_cons,List.foldl_cons,← h.mode_step e.1 e.2]
    exact ih (h.step e.1 e.2)

def streams : Sfr → Cmd → Option Byte
  | .ep6fifocfg, .ep6inStart => some 0x0c
  | .ep6fifocfg, .ep6inStop => some 0x04
  | .ep4fifocfg, .ep4inStart => some 0x0c
  | .ep4fifocfg, .ep4inStop => some 0x04
  | .ep2fifocfg, .ep2outStart => some 0x10
  | .ep2fifocfg, .ep2outStop => some 0x04
  | _, _ => none

theorem fifo_latest {r : Sfr} (hr : r = .ep2fifocfg ∨ r = .ep4fifocfg ∨ r = .ep6fifocfg)
    (done : List (Cmd × Byte)) (p : Panel) :
    (done.foldl Panel.step p).sfr r = latest (streams r) (done.map Prod.fst) (p.sfr r) := by
  have hstep (p : Panel) (k : Cmd) (v : Byte) :
      (p.step (k,v)).sfr r = (streams r k).getD (p.sfr r) := by
    rcases hr with rfl | rfl | rfl <;> cases k <;>
      simp [Panel.step,Panel.start,Panel.set,streams]
  induction done generalizing p with
  | nil => rfl
  | cons e done ih => rw [List.foldl_cons,ih,List.map_cons,latest_cons,hstep]

inductive Reg
  | sfr (r : Sfr) | ep8fifocfg | ep1outcfg | ep1incfg | ep1outbc | revctl
  | ep2cfg | ep4cfg | ep6cfg | ep8cfg | fifopinpolar
  | ep4autoinlenh | ep4autoinlenl | ep6autoinlenh | ep6autoinlenl | autoptrsetup | pinflagsab
  deriving DecidableEq

def initWrites : List (Reg × Byte) :=
  [(.sfr .ep2fifocfg,0x04),(.sfr .ep4fifocfg,0x04),(.sfr .ep6fifocfg,0x04),(.ep8fifocfg,0x04),
    (.ep1outcfg,0xa0),(.ep1incfg,0xa0),(.ep1outbc,0),(.revctl,0x03),
    (.ep2cfg,0xa2),(.ep4cfg,0xe2),(.ep6cfg,0xe0),(.ep8cfg,0x00),
    (.fifopinpolar,0x00),(.ep4autoinlenh,0x02),(.ep4autoinlenl,0x00),
    (.ep6autoinlenh,0x02),(.ep6autoinlenl,0x00),
    (.sfr .fiforeset,0x80),(.sfr .fiforeset,0x02),(.sfr .fiforeset,0x04),(.sfr .fiforeset,0x06),
    (.sfr .fiforeset,0x08),(.sfr .fiforeset,0x00),
    (.autoptrsetup,0x07),(.sfr .iod,0x00),(.sfr .oed,0xc0),(.pinflagsab,0xe8)]

def Reg.port : Reg × Byte → Option (Sfr × Byte)
  | (.sfr r,v) => some (r,v)
  | _ => none

/-- Writing EP1OUTBC arms EP1OUT. -/
def mainInit (fw : Fw σ) : Fw σ :=
  {fw with core := {setSfrs fw.core (initWrites.filterMap Reg.port) with
                    addrMask := 0, valIfconfig := 0},
           outBusy := fw.outBusy || initWrites.any fun w => decide (w.1 = .ep1outbc)}

theorem initWrites_port : initWrites.filterMap Reg.port =
    [(.ep2fifocfg,0x04),(.ep4fifocfg,0x04),(.ep6fifocfg,0x04),(.fiforeset,0x80),(.fiforeset,0x02),
      (.fiforeset,0x04),(.fiforeset,0x06),(.fiforeset,0x08),(.fiforeset,0x00),(.iod,0x00),
      (.oed,0xc0)] := rfl

theorem driven_mainInit (fw : Fw σ) : (panel (mainInit fw).core).Driven := by
  refine ⟨BitVec.zero_and,?_⟩
  simp [panel,mainInit,initWrites_port,setSfrs,modePins]

theorem fifo_mainInit (fw : Fw σ) {r : Sfr}
    (hr : r = .ep2fifocfg ∨ r = .ep4fifocfg ∨ r = .ep6fifocfg) :
    (panel (mainInit fw).core).sfr r = 0x04 := by
  rcases hr with rfl | rfl | rfl <;> simp [panel,mainInit,initWrites_port,setSfrs]

theorem mode_mainInit (fw : Fw σ) : (panel (mainInit fw).core).sfr .iod &&& modePins = 0 := by
  simp [panel,mainInit,initWrites_port,setSfrs]

/-- The commands of a list of packets. -/
def cmds (pkts : List (List Byte)) : List Cmd := pkts.flatMap fun pkt => (commands.decode pkt).1

/-- The firmware is behind the commands taken so far, and those of the packet at hand are left. -/
structure Follows (b : Board σ) (c₀ : Core σ) (s : Endpoint.Sys σ) : Prop where
  outBusy : s.pc = .gate ∨ s.pc = .run ∨ s.pc = .rearm → s.outBusy = false
  accepted : s.accepted = s.executed ++ if Endpoint.owed s then [Endpoint.packet s] else []
  between : s.pc ≠ .run → s.l.core = (runAll b c₀ (cmds s.executed)).core
  within : s.pc = .run → ∃ ks,
    (commands.decode (Endpoint.packet s)).1 = ks ++ (commands.decode (rest s.l)).1 ∧
      s.l.core = (runAll b c₀ (cmds s.executed ++ ks)).core

variable {s t : Endpoint.Sys σ}

theorem decode_nil : (commands.decode []).1 = [] := by
  rw [commands.decode_error (e:=.done) rfl]

theorem cmds_snoc (pkts : List (List Byte)) (pkt : List Byte) :
    cmds (pkts ++ [pkt]) = cmds pkts ++ (commands.decode pkt).1 := by
  simp [cmds]

theorem Follows.move (h : Follows b c₀ s) {pc : Endpoint.Pc}
    (ho : pc = .gate ∨ pc = .run ∨ pc = .rearm → s.outBusy = false)
    (hw : Endpoint.owed {s with pc := pc} = Endpoint.owed s) (hr : s.pc ≠ .run) (hr' : pc ≠ .run) :
    Follows b c₀ {s with pc := pc} where
  outBusy := ho
  accepted := by
    rw [hw]
    exact h.accepted
  between _ := h.between hr
  within hn := absurd hn hr'

theorem follows_send (h : Follows b c₀ s) {pkt : List Byte}
    (ht : Endpoint.step b s (.send pkt) = some t) : Follows b c₀ t := by
  simp only [Endpoint.step] at ht
  split_ifs at ht with hg
  obtain ⟨ho,hl⟩ := hg
  obtain rfl := Option.some.inj ht
  have hb := h.outBusy
  have hacc := h.accepted
  have hw : Endpoint.owed s = false := by simp [Endpoint.owed,ho]
  have hpkt : load (store s.l.outBuf 0 pkt) 0 (BitVec.ofNat 8 pkt.length).toNat = pkt := by
    rw [BitVec.toNat_ofNat,Nat.mod_eq_of_lt (by omega),load_store]
  have hrearm : s.pc ≠ .rearm := fun hn => by simp [hn,ho] at hb
  have hrun : s.pc ≠ .run := fun hn => by simp [hn,ho] at hb
  rw [hw] at hacc
  refine ⟨fun _ => rfl,?_,fun _ => h.between hrun,fun hn => absurd hn hrun⟩
  simp only [hacc,Endpoint.owed,Endpoint.packet,hpkt]
  simp [hrearm]

theorem follows_fetch (h : Follows b c₀ s) (ht : Endpoint.step b s .fetch = some t) :
    Follows b c₀ t := by
  simp only [Endpoint.step] at ht
  split_ifs at ht
  obtain rfl := Option.some.inj ht
  exact ⟨h.outBusy,h.accepted,h.between,h.within⟩

/-- The command loop takes the next command of the packet, or drops the rest of it. -/
theorem follows_turn (h : Follows b c₀ s) (hp : s.pc = .run)
    (hc : ¬ s.l.cmdCnt = 0) : Follows b c₀ (Endpoint.tick b s) := by
  have ho := h.outBusy (Or.inr (Or.inl hp))
  have hout := (turn_packet b hc).1
  have hpk : Endpoint.packet {s with l := Pass.turn b (s.l.countCmd 1)} = Endpoint.packet s := by
    simp only [Endpoint.packet,hout]
  obtain ⟨ks,hks,hcore⟩ := h.within hp
  rw [Endpoint.tick_turn b hp hc]
  refine ⟨fun _ => ho,?_,fun hn => absurd hp hn,fun _ => ?_⟩
  · rw [hpk]
    exact h.accepted
  rw [hpk]
  rcases turn_cases b hc with ⟨k,n,_,hn,he⟩ | ⟨hn,m,n,he⟩
  · rw [commands.decode_ok hn,← he] at hks
    refine ⟨ks ++ [k],by rw [hks,List.append_assoc,List.singleton_append],?_⟩
    rw [← List.append_assoc,runAll_append,← hcore]
    exact congrArg Pass.core he
  · rw [commands.decode_error hn] at hks
    have hr : rest (Pass.turn b (s.l.countCmd 1)) = [] := by
      rw [he]
      rfl
    refine ⟨ks,?_,?_⟩
    · rw [hr,decode_nil]
      exact hks
    · exact (congrArg Pass.core he).trans hcore

theorem follows_done (h : Follows b c₀ s) (hp : s.pc = .run) (hc : s.l.cmdCnt = 0) :
    Follows b c₀ (Endpoint.tick b s) := by
  have ho := h.outBusy (Or.inr (Or.inl hp))
  have hw : Endpoint.owed s = true := by simp [Endpoint.owed,hp,ho]
  have hacc := h.accepted
  obtain ⟨ks,hks,hcore⟩ := h.within hp
  have hr : rest s.l = [] := by simp [rest,hc]
  rw [hr,decode_nil] at hks
  rw [hw] at hacc
  rw [Endpoint.tick_done b hp hc]
  refine ⟨fun _ => ho,?_,fun _ => ?_,fun hn => by cases hn⟩
  · rw [hacc]
    simp [Endpoint.owed]
  · rw [cmds_snoc,hks,List.append_nil]
    exact hcore

theorem follows_step (s : Endpoint.Sys σ) (a : Endpoint.Action)
    (t : Endpoint.Sys σ) (h : Follows b c₀ s) (ht : Endpoint.step b s a = some t) :
    Follows b c₀ t := by
  cases a with
  | send pkt => exact follows_send h ht
  | fetch => exact follows_fetch h ht
  | tick =>
    obtain rfl := Option.some.inj ht
    cases hp : s.pc with
    | poll =>
      cases ho : s.outBusy with
      | true => simpa only [Endpoint.tick,hp,ho,if_true] using h
      | false =>
        have he : Endpoint.tick b s = {s with pc := .gate} := by simp [Endpoint.tick,hp,ho]
        rw [he]
        exact h.move (fun _ => ho) (by simp [Endpoint.owed,hp,ho]) (by simp [hp]) (by simp)
    | gate =>
      have ho := h.outBusy (Or.inl hp)
      cases hi : s.inBusy with
      | true =>
        have he : Endpoint.tick b s = {s with pc := .poll} := by simp [Endpoint.tick,hp,hi]
        rw [he]
        exact h.move (fun _ => ho) (by simp [Endpoint.owed,hp,ho]) (by simp [hp]) (by simp)
      | false =>
        have he : Endpoint.tick b s = {s with pc := .run, l := Endpoint.fresh s} := by
          simp [Endpoint.tick,hp,hi]
        have hacc := h.accepted
        have hb := h.between (by simp [hp])
        rw [he]
        refine ⟨fun _ => ho,?_,fun hn => absurd rfl hn,fun _ => ?_⟩
        · rw [hacc]
          simp [Endpoint.owed,Endpoint.packet,Endpoint.fresh,hp,ho]
        · refine ⟨[],rfl,?_⟩
          rw [List.append_nil]
          exact hb
    | run =>
      by_cases hc : s.l.cmdCnt = 0
      · exact follows_done h hp hc
      · exact follows_turn h hp hc
    | rearm =>
      have he : Endpoint.tick b s = {s with pc := .arm, outBusy := true} := by
        simp only [Endpoint.tick,hp]
      have hacc := h.accepted
      have hb := h.between (by simp [hp])
      rw [he]
      refine ⟨fun hn => ?_,?_,fun _ => hb,fun hn => by cases hn⟩
      · rcases hn with hn | hn | hn <;> cases hn
      · rw [hacc]
        simp [Endpoint.owed,hp]
    | arm =>
      have hacc := h.accepted
      have hb := h.between (by simp [hp])
      by_cases hr : s.l.retCnt = 0
      · have he : Endpoint.tick b s = {s with pc := .poll} := by
          simp only [Endpoint.tick,hp]
          exact if_neg (not_not.mpr hr)
        rw [he]
        exact h.move (by simp) (by simp [Endpoint.owed,hp]) (by simp [hp]) (by simp)
      · have he : Endpoint.tick b s =
            {s with pc := .poll, inBc := s.l.retCnt, inBusy := true} := by
          simp only [Endpoint.tick,hp]
          exact if_pos hr
        rw [he]
        refine ⟨fun hn => ?_,?_,fun _ => hb,fun hn => by cases hn⟩
        · rcases hn with hn | hn | hn <;> cases hn
        · rw [hacc]
          simp [Endpoint.owed,Endpoint.packet,hp]

/-- The packets accepted so far are behind the firmware but for a rest, and no rest is left
where the host may send. -/
theorem Follows.split (h : Follows b c₀ s) : ∃ ks todo, cmds s.accepted = ks ++ todo ∧
    s.l.core = (runAll b c₀ ks).core ∧ (s.outBusy = true → todo = []) := by
  have hacc := h.accepted
  by_cases hp : s.pc = .run
  · have ho := h.outBusy (Or.inr (Or.inl hp))
    have hw : Endpoint.owed s = true := by simp [Endpoint.owed,hp,ho]
    obtain ⟨ks,hks,hcore⟩ := h.within hp
    rw [hw] at hacc
    refine ⟨_,(commands.decode (rest s.l)).1,?_,hcore,fun hn => ?_⟩
    · rw [hacc,if_pos rfl,cmds_snoc,hks,List.append_assoc]
    · rw [ho] at hn
      cases hn
  · have hcore := h.between hp
    cases hw : Endpoint.owed s with
    | false =>
      rw [hw] at hacc
      refine ⟨_,[],?_,hcore,fun _ => rfl⟩
      simp [hacc]
    | true =>
      rw [hw] at hacc
      refine ⟨_,(commands.decode (Endpoint.packet s)).1,?_,hcore,fun hn => ?_⟩
      · rw [hacc,if_pos rfl,cmds_snoc]
      · simp [Endpoint.owed,hn] at hw

theorem follows_boot (b : Board σ) (fw : Fw σ) :
    Follows b fw.core (Endpoint.Sys.boot fw) where
  outBusy h := by rcases h with h | h | h <;> cases h
  accepted := rfl
  between _ := rfl
  within h := by cases h

end Ports
end AkbPcr20x
