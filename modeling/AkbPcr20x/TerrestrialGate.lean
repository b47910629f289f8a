import AkbPcr20x.TerrestrialTuning
import AkbPcr20x.Transition

/-! The operations of the ISDB-T tuner with the I2C gate of the frontend and the mutex of the
tuner. On every path of every operation a transfer finds the gate open, and the gate is closed and
the mutex free behind it. Without the two, `mxl5007t_set_params` is the one modelled before. -/
namespace AkbPcr20x
namespace TerrestrialGate

open Mxl5007t Transition
open TunerInstances (transferred mxlFail)

inductive Ev
  | gate (enable : Bool)
  | lock (held : Bool)
  | write (p : RegPair)
  | read (reg : Byte)
  | reset

def Ev.isTransfer : Ev → Bool
  | .gate _ => false
  | .lock _ => false
  | _ => true

/-- The result of the `k`-th transfer, and the byte that it brings in. -/
structure Bus where
  ret : ℕ → ℤ
  val : ℕ → Byte

structure Sys where
  state : State
  chipId : Byte
  evs : List Ev

def Sys.emit (e : Ev) (s : Sys) : Sys := {s with evs := s.evs ++ [e]}

def Sys.count (s : Sys) : ℕ := s.evs.countP Ev.isTransfer

variable (gated : Bool) (bus : Bus)

/-- `fe->ops.i2c_gate_ctrl`, of a frontend that has one. -/
def gateCtrl (enable : Bool) (s : Sys) : Sys := if gated then s.emit (.gate enable) else s

def writeReg (reg val : Byte) (s : Sys) : ℤ × Sys :=
  (transferred 1 (bus.ret s.count),s.emit (.write ⟨reg,val⟩))

def writeRegs : List RegPair → Sys → ℤ × Sys
  | [], s => (0,s)
  | p::t, s =>
    if p.live then
      let r := writeReg bus p.reg p.val s
      if r.1 = 0 then writeRegs t r.2 else r
    else (0,s)

def readReg (reg : Byte) (s : Sys) : ℤ × Byte × Sys :=
  (transferred 2 (bus.ret s.count),bus.val s.count,s.emit (.read reg))

def softReset (s : Sys) : ℤ × Sys := (transferred 1 (bus.ret s.count),s.emit .reset)

def tunerInit (mode : Mode) (s : Sys) : ℤ × Sys :=
  let r := calcInitRegs mode s.state
  writeRegs bus r.1 {s with state := r.2}

def tunerRfTune (rfFreqHz : U32) (bw : BwMhz) (s : Sys) : ℤ × Sys :=
  let r := calcRfTuneRegs rfFreqHz bw s.state
  writeRegs bus r.1 {s with state := r.2}

/-- `mxl5007t_synth_lock_status`: `rf_locked` and `ref_locked`. -/
def synthLockStatus (s : Sys) : ℤ × (Bool × Bool) × Sys :=
  let r := readReg bus 0xd8 s
  if mxlFail r.1 then (r.1,(false,false),r.2.2)
  else (r.1,(r.2.1 &&& 0x0c == 0x0c,r.2.1 &&& 0x03 == 0x03),r.2.2)

/-- `mxl5007t_get_status`; the flag stands for `TUNER_STATUS_LOCKED`. -/
def getStatus (s : Sys) : ℤ × Bool × Sys :=
  let r := synthLockStatus bus (gateCtrl gated true s)
  let status := if mxlFail r.1 then false else r.2.1.1 || r.2.1.2
  (r.1,status,gateCtrl gated false r.2.2)

def setParams (c : Props) (s : Sys) : ℤ × Sys :=
  match c.select with
  | none => (-Errno.einval,s)
  | some (mode,bw) =>
    let r := tunerInit bus mode ((gateCtrl gated true s).emit (.lock true))
    let r :=
      if mxlFail r.1 then r
      else
        let r := tunerRfTune bus c.frequency bw r.2
        if mxlFail r.1 then r
        else (r.1,{r.2 with state :=
          {r.2.state with frequency := c.frequency, bandwidth := c.bandwidthHz}})
    (r.1,gateCtrl gated false (r.2.emit (.lock false)))

def init (s : Sys) : ℤ × Sys :=
  let r := writeReg bus 0x01 0x01 (gateCtrl gated true s)
  (r.1,gateCtrl gated false r.2)

def sleep (s : Sys) : ℤ × Sys :=
  let r := writeReg bus 0x01 0x00 (gateCtrl gated true s)
  let r := writeReg bus 0x0f 0x00 r.2
  (r.1,gateCtrl gated false r.2)

/-- `enum mxl5007t_chip_version` without `MxL_UNKNOWN_ID`. -/
def chipVersions : List Byte := [0x11,0x12,0x14,0x21,0x22,0x23,0x24]

def unknownId : Byte := 0x00

def getChipId (s : Sys) : ℤ × Sys :=
  let r := readReg bus 0xd9 s
  if mxlFail r.1 then (r.1,{r.2.2 with chipId := unknownId})
  else (0,{r.2.2 with chipId := if r.2.1 ∈ chipVersions then r.2.1 else unknownId})

/-- What `mxl5007t_attach` does with an instance, a new one or not, and whether it goes on to
install it. -/
def attach (new loopThruEnable : Bool) (s : Sys) : Bool × Sys :=
  let r : ℤ × Sys :=
    if new then
      let r := getChipId bus (gateCtrl gated true s)
      (r.1,gateCtrl gated false r.2)
    else (0,s)
  if mxlFail r.1 then (false,r.2)
  else
    let r := softReset bus (gateCtrl gated true r.2)
    let s := gateCtrl gated false r.2
    if mxlFail r.1 then (false,s)
    else
      let r := writeReg bus 0x04 (if loopThruEnable then 1 else 0) (gateCtrl gated true s)
      let s := gateCtrl gated false r.2
      (!mxlFail r.1,s)

inductive Phase
  | closed
  | opened
  | locked

def discipline : Phase → Ev → Option Phase
  | .closed, .gate true => some .opened
  | .closed, _ => none
  | .opened, .gate false => some .closed
  | .opened, .gate true => none
  | .opened, .lock true => some .locked
  | .opened, .lock false => none
  | .opened, _ => some .opened
  | .locked, .gate _ => none
  | .locked, .lock false => some .opened
  | .locked, .lock true => none
  | .locked, _ => some .locked

/-- Between two operations. A frontend without a gate leaves the bus open. -/
def rest : Phase := if gated then .closed else .opened

def Does (p q : Phase) (s s' : Sys) : Prop :=
  ∃ es, s'.evs = s.evs ++ es ∧ Exec discipline p es q

variable {gated bus} {p q r : Phase} {s s' s'' : Sys}

theorem Does.refl (h : s'.evs = s.evs) : Does p p s s' :=
  ⟨[],by rw [h,List.append_nil],.refl p⟩

theorem Does.trans (h : Does p q s s') (h' : Does q r s' s'') : Does p r s s'' := by
  obtain ⟨es,he,hx⟩ := h
  obtain ⟨es',he',hx'⟩ := h'
  exact ⟨es ++ es',by rw [he',he,List.append_assoc],hx.append hx'⟩

theorem does_emit {e : Ev} (h : discipline p e = some q) (s : Sys) : Does p q s (s.emit e) :=
  ⟨[e],rfl,.succ h (.refl q)⟩

theorem does_open (s : Sys) : Does (rest gated) .opened s (gateCtrl gated true s) := by
  cases gated with
  | false => exact .refl rfl
  | true => exact does_emit rfl s

theorem does_close (s : Sys) : Does .opened (rest gated) s (gateCtrl gated false s) := by
  cases gated with
  | false => exact .refl rfl
  | true => exact does_emit rfl s

theorem opened_ne : Phase.opened ≠ .closed := nofun

theorem locked_ne : Phase.locked ≠ .closed := nofun

theorem does_transfer (hp : p ≠ .closed) {e : Ev} (he : e.isTransfer = true) (s : Sys) :
    Does p p s (s.emit e) := by
  refine does_emit ?_ s
  cases p with
  | closed => exact absurd rfl hp
  | opened | locked => cases e <;> first | rfl | cases he

theorem does_writeReg (hp : p ≠ .closed) (reg val : Byte) (s : Sys) :
    Does p p s (writeReg bus reg val s).2 :=
  @does_transfer p hp (.write ⟨reg,val⟩) rfl s

theorem does_readReg (hp : p ≠ .closed) (reg : Byte) (s : Sys) :
    Does p p s (readReg bus reg s).2.2 :=
  @does_transfer p hp (.read reg) rfl s

theorem does_softReset (hp : p ≠ .closed) (s : Sys) : Does p p s (softReset bus s).2 :=
  @does_transfer p hp .reset rfl s

theorem does_writeRegs (hp : p ≠ .closed) (t : List RegPair) (s : Sys) :
    Does p p s (writeRegs bus t s).2 := by
  induction t generalizing s with
  | nil => exact .refl rfl
  | cons x t ih =>
    have h1 : Does p p s (writeReg bus x.reg x.val s).2 := does_writeReg hp x.reg x.val s
    simp only [writeRegs]
    split_ifs
    · exact h1.trans (ih _)
    · exact h1
    · exact .refl rfl

theorem does_tunerInit (hp : p ≠ .closed) (mode : Mode) (s : Sys) :
    Does p p s (tunerInit bus mode s).2 :=
  (Does.refl rfl).trans (does_writeRegs hp _ _)

theorem does_tunerRfTune (hp : p ≠ .closed) (rfFreqHz : U32) (bw : BwMhz) (s : Sys) :
    Does p p s (tunerRfTune bus rfFreqHz bw s).2 :=
  (Does.refl rfl).trans (does_writeRegs hp _ _)

theorem does_synthLockStatus (s : Sys) : Does .opened .opened s (synthLockStatus bus s).2.2 := by
  have h1 : Does .opened .opened s (readReg bus 0xd8 s).2.2 := does_readReg opened_ne 0xd8 s
  rw [synthLockStatus]
  split_ifs <;> exact h1

theorem does_getStatus (s : Sys) : Does (rest gated) (rest gated) s (getStatus gated bus s).2.2 :=
  ((does_open s).trans (does_synthLockStatus _)).trans (does_close _)

theorem does_init (s : Sys) : Does (rest gated) (rest gated) s (init gated bus s).2 :=
  ((does_open s).trans (does_writeReg opened_ne _ _ _)).trans (does_close _)

theorem does_sleep (s : Sys) : Does (rest gated) (rest gated) s (sleep gated bus s).2 :=
  (((does_open s).trans (does_writeReg opened_ne _ _ _)).trans (does_writeReg opened_ne _ _ _)).trans
    (does_close _)

theorem does_getChipId (s : Sys) : Does .opened .opened s (getChipId bus s).2 := by
  have h1 : Does .opened .opened s (readReg bus 0xd9 s).2.2 := does_readReg opened_ne 0xd9 s
  rw [getChipId]
  split_ifs <;> exact h1.trans (.refl rfl)

theorem does_setParams (c : Props) (s : Sys) :
    Does (rest gated) (rest gated) s (setParams gated bus c s).2 := by
  cases hs : c.select with
  | none =>
    rw [setParams,hs]
    exact .refl rfl
  | some sel =>
    obtain ⟨mode,bw⟩ := sel
    have hon : Does (rest gated) .locked s ((gateCtrl gated true s).emit (.lock true)) :=
      (does_open s).trans (does_emit rfl _)
    have hoff (s : Sys) : Does .locked (rest gated) s (gateCtrl gated false (s.emit (.lock false))) :=
      (does_emit rfl s).trans (does_close _)
    have hinit : Does (rest gated) .locked s
        (tunerInit bus mode ((gateCtrl gated true s).emit (.lock true))).2 :=
      hon.trans (does_tunerInit locked_ne mode _)
    have htune : Does (rest gated) .locked s (tunerRfTune bus c.frequency bw
        (tunerInit bus mode ((gateCtrl gated true s).emit (.lock true))).2).2 :=
      hinit.trans (does_tunerRfTune locked_ne c.frequency bw _)
    simp only [setParams,hs]
    split_ifs
    · exact hinit.trans (hoff _)
    · exact htune.trans (hoff _)
    · exact (htune.trans (.refl rfl)).trans (hoff _)

theorem does_attach (new loopThruEnable : Bool) (s : Sys) :
    Does (rest gated) (rest gated) s (attach gated bus new loopThruEnable s).2 := by
  have hid : Does (rest gated) (rest gated) s
      (gateCtrl gated false (getChipId bus (gateCtrl gated true s)).2) :=
    ((does_open s).trans (does_getChipId _)).trans (does_close _)
  have hreset (s : Sys) : Does (rest gated) (rest gated) s
      (gateCtrl gated false (softReset bus (gateCtrl gated true s)).2) :=
    ((does_open s).trans (does_softReset opened_ne _)).trans (does_close _)
  have hwrite (v : Byte) (s : Sys) : Does (rest gated) (rest gated) s
      (gateCtrl gated false (writeReg bus 0x04 v (gateCtrl gated true s)).2) :=
    ((does_open s).trans (does_writeReg opened_ne _ _ _)).trans (does_close _)
  cases new with
  | true =>
    simp only [attach,if_true]
    split_ifs
    · exact hid
    · exact hid.trans (hreset _)
    · exact (hid.trans (hreset _)).trans (hwrite _ _)
    · exact (hid.trans (hreset _)).trans (hwrite _ _)
  | false =>
    simp only [attach,Bool.false_eq_true,if_false]
    split_ifs
    · exact .refl rfl
    · exact hreset _
    · exact (hreset _).trans (hwrite _ _)
    · exact (hreset _).trans (hwrite _ _)

/-- The tuner modelled before, that has sent the writes behind `base`. -/
structure Erased (base : List Ev) (s : Sys) (t : Tuner) : Prop where
  state : s.state = t.state
  evs : s.evs = base ++ t.sent.map .write

def later (bus : Bus) (base : List Ev) (k : ℕ) : ℤ := bus.ret (base.countP Ev.isTransfer + k)

variable (bus) {base : List Ev} {t : Tuner}

theorem Erased.count (h : Erased base s t) :
    s.count = base.countP Ev.isTransfer + t.sent.length := by
  have hall : ∀ e ∈ t.sent.map Ev.write, e.isTransfer = true := by
    intro e he
    obtain ⟨p,_,rfl⟩ := List.mem_map.mp he
    rfl
  rw [Sys.count,h.evs,List.countP_append,List.countP_eq_length.mpr hall,List.length_map]

theorem writeReg_erased (h : Erased base s t) (reg val : Byte) :
    (writeReg bus reg val s).1 = (Mxl5007t.writeReg (later bus base) reg val t).1 ∧
      Erased base (writeReg bus reg val s).2 (Mxl5007t.writeReg (later bus base) reg val t).2 := by
  refine ⟨?_,h.state,?_⟩
  · rw [writeReg,h.count]
    rfl
  · simp only [writeReg,Sys.emit,Mxl5007t.writeReg,h.evs,List.map_append,List.append_assoc,
      List.map_cons,List.map_nil]

theorem writeRegs_erased (h : Erased base s t) (ps : List RegPair) :
    (writeRegs bus ps s).1 = (Mxl5007t.writeRegs (later bus base) ps t).1 ∧
      Erased base (writeRegs bus ps s).2 (Mxl5007t.writeRegs (later bus base) ps t).2 := by
  induction ps generalizing s t with
  | nil => exact ⟨rfl,h⟩
  | cons x ps ih =>
    obtain ⟨hr,he⟩ := writeReg_erased bus h x.reg x.val
    simp only [writeRegs,Mxl5007t.writeRegs,← hr]
    split_ifs
    · exact ih he
    · exact ⟨hr,he⟩
    · exact ⟨rfl,h⟩

theorem tunerInit_erased (h : Erased base s t) (mode : Mode) :
    (tunerInit bus mode s).1 = (Mxl5007t.tunerInit (later bus base) mode t).1 ∧
      Erased base (tunerInit bus mode s).2 (Mxl5007t.tunerInit (later bus base) mode t).2 := by
  have h' : Erased base {s with state := (calcInitRegs mode t.state).2}
      {t with state := (calcInitRegs mode t.state).2} := ⟨rfl,h.evs⟩
  simp only [tunerInit,Mxl5007t.tunerInit,h.state]
  exact writeRegs_erased bus h' _

theorem tunerRfTune_erased (h : Erased base s t) (rfFreqHz : U32) (bw : BwMhz) :
    (tunerRfTune bus rfFreqHz bw s).1 = (Mxl5007t.tunerRfTune (later bus base) rfFreqHz bw t).1 ∧
      Erased base (tunerRfTune bus rfFreqHz bw s).2
        (Mxl5007t.tunerRfTune (later bus base) rfFreqHz bw t).2 := by
  have h' : Erased base {s with state := (calcRfTuneRegs rfFreqHz bw t.state).2}
      {t with state := (calcRfTuneRegs rfFreqHz bw t.state).2} := ⟨rfl,h.evs⟩
  simp only [tunerRfTune,Mxl5007t.tunerRfTune,h.state]
  exact writeRegs_erased bus h' _

/-- The events in front of the writes of a call, and behind them. -/
def before (gated : Bool) : List Ev := (if gated then [.gate true] else []) ++ [.lock true]

def behind (gated : Bool) : List Ev := .lock false::if gated then [.gate false] else []

theorem evs_before (s : Sys) :
    ((gateCtrl gated true s).emit (.lock true)).evs = s.evs ++ before gated := by
  cases gated with
  | false => rfl
  | true => exact List.append_assoc _ _ _

theorem evs_behind (s : Sys) :
    (gateCtrl gated false (s.emit (.lock false))).evs = s.evs ++ behind gated := by
  cases gated with
  | false => rfl
  | true => exact List.append_assoc _ _ _

/-- A call that is not rejected is a call of the tuner modelled before, between the gate and the
mutex. -/
theorem setParams_erased {c : Props} (hs : c.select ≠ none) (s : Sys) :
    let u := Mxl5007t.setParams (later bus (s.evs ++ before gated)) c ⟨s.state,[]⟩
    (setParams gated bus c s).1 = u.1 ∧ (setParams gated bus c s).2.state = u.2.state ∧
      (setParams gated bus c s).2.evs =
        s.evs ++ before gated ++ u.2.sent.map .write ++ behind gated := by
  obtain ⟨⟨mode,bw⟩,hsel⟩ := Option.ne_none_iff_exists'.mp hs
  have h0 : Erased (s.evs ++ before gated) ((gateCtrl gated true s).emit (.lock true))
      ⟨s.state,[]⟩ := by
    refine ⟨?_,by rw [evs_before,List.map_nil,List.append_nil]⟩
    cases gated <;> rfl
  have hstate (s : Sys) : (gateCtrl gated false (s.emit (.lock false))).state = s.state := by
    cases gated <;> rfl
  obtain ⟨hi,hie⟩ := tunerInit_erased bus h0 mode
  obtain ⟨ht,hte⟩ := tunerRfTune_erased bus hie c.frequency bw
  simp only [setParams,Mxl5007t.setParams,hsel,hstate,evs_behind,← hi,← ht]
  split_ifs
  · exact ⟨hi,hie.state,by rw [hie.evs]⟩
  · exact ⟨ht,hte.state,by rw [hte.evs]⟩
  · exact ⟨rfl,by rw [hte.state],by rw [hte.evs]⟩

inductive Call
  | attach (new loopThruEnable : Bool)
  | init
  | sleep
  | setParams (c : Props)
  | getStatus

def Call.exec (gated : Bool) (bus : Bus) : Call → Sys → Sys
  | .attach new loopThruEnable, s => (TerrestrialGate.attach gated bus new loopThruEnable s).2
  | .init, s => (TerrestrialGate.init gated bus s).2
  | .sleep, s => (TerrestrialGate.sleep gated bus s).2
  | .setParams c, s => (TerrestrialGate.setParams gated bus c s).2
  | .getStatus, s => (TerrestrialGate.getStatus gated bus s).2.2

def runCalls (gated : Bool) (bus : Bus) (cs : List Call) (s : Sys) : Sys :=
  cs.foldl (fun s c => c.exec gated bus s) s

theorem does_exec (c : Call) (s : Sys) :
    Does (rest gated) (rest gated) s (c.exec gated bus s) := by
  cases c with
  | attach new loopThruEnable => exact does_attach new loopThruEnable s
  | init => exact does_init s
  | sleep => exact does_sleep s
  | setParams c => exact does_setParams c s
  | getStatus => exact does_getStatus s

theorem does_runCalls (cs : List Call) (s : Sys) :
    Does (rest gated) (rest gated) s (runCalls gated bus cs s) := by
  induction cs generalizing s with
  | nil => exact .refl rfl
  | cons c cs ih => exact (does_exec bus c s).trans (ih _)

/-- In every run of the operations, with any failures, each transfer finds the gate open, and
behind each operation the gate is closed and the mutex free. Behind any run, a
`mxl5007t_set_params` that is not rejected is the one without gate and mutex, in its result, its
state and its writes. -/
theorem calls_disciplined (gated : Bool) (cs : List Call) (s : Sys) :
    let s' := runCalls gated bus cs s
    (∃ es, s'.evs = s.evs ++ es ∧ Exec discipline (rest gated) es (rest gated)) ∧
      ∀ c : Props, c.select ≠ none →
        let u := Mxl5007t.setParams (later bus (s'.evs ++ before gated)) c ⟨s'.state,[]⟩
        let r := setParams gated bus c s'
        r.1 = u.1 ∧ r.2.state = u.2.state ∧
          r.2.evs = s'.evs ++ before gated ++ u.2.sent.map .write ++ behind gated :=
  ⟨does_runCalls bus cs s,fun _ hs => setParams_erased bus hs _⟩

end TerrestrialGate
end AkbPcr20x
