import AkbPcr20x.I2cFrames

/-! `eeprom_write` and `eeprom_read` against a serial EEPROM. A frame to the device sets its
address counter, and the bytes behind the address go into the cells. Every byte that a read
clocks moves the counter as well, also in an attempt that breaks off; `eeprom_read` does not
set it again before the next one. -/
namespace AkbPcr20x
namespace Eeprom

open Memory MainLoop I2cEngine I2cBus I2cCall I2cOutcome I2cFrames Transducer

variable (twoByte : Bool) (promAddr : Byte)

/-- The address bytes; `EEPROM_TWO_BYTE` tells the addressing mode. -/
def cellAddress (addr : Word) : List Byte :=
  if twoByte then [msb addr,lsb addr] else [lsb addr]

def eepromWrite : Word → List Byte → Ctl → Bool × Ctl
  | _, [], s => (true,s)
  | addr, v::buf, s =>
    let r := i2cWrite promAddr (cellAddress twoByte addr ++ [v]) [] s
    if r.1.getD false then eepromWrite (addr + 1) buf r.2 else (false,r.2)

def eepromRead (addr : Word) (length : ℕ) (buf : Mem Byte) (s : Ctl) : Bool × Mem Byte × Ctl :=
  let w := i2cWrite promAddr (cellAddress twoByte addr) [] s
  if w.1.getD false then
    let r := i2cRead promAddr length buf w.2
    (r.1.getD false,r.2)
  else (false,buf,w.2)

/-- Reads of the device: `clock` is a byte that begins to go out, and `byte` a value that is
taken as such. -/
inductive SendEv
  | clock
  | byte (v : Byte)
  deriving DecidableEq

inductive SendPhase
  | off
  | started
  | addressed
  | selected
  | sending
  | last

/-- The first access to I2DAT behind the address clocks a byte, each further one takes it and
clocks the next, unless a STOP was requested before. -/
def send : SendPhase → BusEv → SendPhase × List SendEv
  | _, .start => (.started,[])
  | p, .lastrd => (p,[])
  | .started, .sent v => (if v = readAddress promAddr then .addressed else .off,[])
  | .addressed, .ack => (.selected,[])
  | .selected, .got _ => (.sending,[.clock])
  | .sending, .got v => (.sending,[.byte v,.clock])
  | .sending, .stop => (.last,[])
  | .last, .got v => (.off,[.byte v])
  | _, _ => (.off,[])

/-- What the device takes over and what it sends, in order. -/
def served (s s' : Ctl) : List (List Byte ⊕ SendEv) :=
  (run (both frame (send promAddr)) (.idle,.off) (events s s')).2

structure Prom where
  cells : Mem Byte
  ptr : ℕ

/-- The number of cells that the addresses tell apart. -/
def size : ℕ := if twoByte then 2^16 else 2^8

def split : List Byte → Option (ℕ × List Byte)
  | [] => none
  | hi::bs =>
    if twoByte then
      match bs with
      | [] => none
      | lo::bs => some ((be16 hi lo).toNat,bs)
    else some (hi.toNat,bs)

def Prom.write (p : Prom) : List Byte → Prom
  | [] => p
  | v::bs => Prom.write ⟨Function.update p.cells p.ptr v,(p.ptr + 1) % size twoByte⟩ bs

/-- A frame on the bus; one to another device changes nothing. -/
def Prom.take (p : Prom) (frame : List Byte) : Prom :=
  if frame.head? = some (writeAddress promAddr) then
    match split twoByte frame.tail with
    | none => p
    | some (a,bs) => Prom.write twoByte {p with ptr := a} bs
  else p

def Prom.step (p : Prom) : List Byte ⊕ SendEv → Prom
  | .inl frame => p.take twoByte promAddr frame
  | .inr .clock => {p with ptr := (p.ptr + 1) % size twoByte}
  | .inr (.byte _) => p

/-- The device behind what happened on the bus between two states. -/
def Prom.after (p : Prom) (s s' : Ctl) : Prom :=
  (served promAddr s s').foldl (Prom.step twoByte promAddr) p

/-- The device sends its cells: a byte is the cell at the counter where it was clocked. -/
def Prom.Sends (p : Prom) (v : Byte) : List (List Byte ⊕ SendEv) → Prop
  | [] => True
  | .inr (.byte d)::es => d = v ∧ Prom.Sends p v es
  | .inr .clock::es => Prom.Sends (p.step twoByte promAddr (.inr .clock)) (p.cells p.ptr) es
  | .inl f::es => Prom.Sends (p.step twoByte promAddr (.inl f)) v es

instance decidableSends : ∀ (p : Prom) (v : Byte) (es : List (List Byte ⊕ SendEv)),
    Decidable (p.Sends twoByte promAddr v es)
  | _, _, [] => isTrue trivial
  | p, v, .inr (.byte d)::es =>
    have := decidableSends p v es
    inferInstanceAs (Decidable (d = v ∧ p.Sends twoByte promAddr v es))
  | p, _, .inr .clock::es =>
    decidableSends (p.step twoByte promAddr (.inr .clock)) (p.cells p.ptr) es
  | p, v, .inl f::es => decidableSends (p.step twoByte promAddr (.inl f)) v es

def clocks (s s' : Ctl) : ℕ := ((served promAddr s s').filterMap Sum.getRight?).count .clock

def cellsFrom (m : Mem Byte) (q n : ℕ) : List Byte :=
  (List.range n).map fun i => m ((q + i) % size twoByte)

def cell (addr : Word) : ℕ := addr.toNat % size twoByte

variable {twoByte promAddr} {p : Prom} {s s' s'' : Ctl} {es es' : List (List Byte ⊕ SendEv)}

theorem size_pos : 0 < size twoByte := by
  unfold size
  split_ifs <;> decide

theorem cell_lt (addr : Word) : cell twoByte addr < size twoByte := Nat.mod_lt _ size_pos

theorem cell_add (addr : Word) (i : ℕ) :
    cell twoByte (addr + BitVec.ofNat 16 i) = (cell twoByte addr + i) % size twoByte := by
  unfold cell size
  cases twoByte
  · simp only [Bool.false_eq_true,if_false,BitVec.toNat_add,BitVec.toNat_ofNat]
    omega
  · simp only [if_true,BitVec.toNat_add,BitVec.toNat_ofNat]
    omega

theorem split_cellAddress (addr : Word) (bs : List Byte) :
    split twoByte (cellAddress twoByte addr ++ bs) = some (cell twoByte addr,bs) := by
  cases twoByte
  · simp [split,cellAddress,cell,size,lsb]
  · have hc : addr.toNat % 2^16 = addr.toNat := Nat.mod_eq_of_lt addr.isLt
    simp only [split,cellAddress,cell,size,if_true,List.cons_append,List.nil_append,be16_msb_lsb,hc]

theorem take_cellAddress (addr : Word) (bs : List Byte) :
    p.take twoByte promAddr (writeAddress promAddr::(cellAddress twoByte addr ++ bs)) =
      Prom.write twoByte {p with ptr := cell twoByte addr} bs := by
  rw [Prom.take,if_pos List.head?_cons,List.tail_cons,split_cellAddress]

theorem take_select (addr : Word) :
    p.take twoByte promAddr (writeAddress promAddr::cellAddress twoByte addr) =
      {p with ptr := cell twoByte addr} := by
  have h := @take_cellAddress twoByte promAddr p addr []
  rwa [List.append_nil] at h

/-- Between two states, with the bus free in both, the device serves `es`. -/
def Serves (promAddr : Byte) (s s' : Ctl) (es : List (List Byte ⊕ SendEv)) : Prop :=
  ∃ bs, Grows observe s.trace s'.trace .off .off bs ∧
    run (both frame (send promAddr)) (.idle,.off) bs = ((.idle,.off),es)

theorem Serves.refl (promAddr : Byte) (s : Ctl) : Serves promAddr s s [] :=
  ⟨[],.refl observe s.trace .off,rfl⟩

theorem Serves.trans (h : Serves promAddr s s' es) (h' : Serves promAddr s' s'' es') :
    Serves promAddr s s'' (es ++ es') := by
  obtain ⟨bs,hg,hr⟩ := h
  obtain ⟨bs',hg',hr'⟩ := h'
  exact ⟨bs ++ bs',hg.trans hg',run_append hr hr'⟩

theorem Serves.served_eq (h : Serves promAddr s s' es) : served promAddr s s' = es := by
  obtain ⟨bs,hg,hr⟩ := h
  have he : events s s' = bs := hg.events_eq
  rw [served,he,hr]

theorem writeAddress_ne (a b : Byte) : writeAddress a ≠ readAddress b := by
  intro h
  have h0 := congrArg (fun v : Byte => v.getLsbD 0) h
  simp [writeAddress,readAddress] at h0

theorem run_send_data {bs : List Byte} {e : Ending} {t : List BusEv} (h : DataEv bs e t) :
    run (send promAddr) .off t = (.off,[]) := by
  induction h with
  | next h ih => simp only [run,send,ih,List.nil_append]
  | _ => rfl

theorem run_send_write {a : Byte} {bs : List Byte} {e : Ending} {t : List BusEv}
    (h : WriteEv (writeAddress a) bs e t) (p : SendPhase) :
    run (send promAddr) p t = (.off,[]) := by
  cases h with
  | data h => simp only [run,send,if_neg (writeAddress_ne a promAddr),run_send_data h,List.nil_append]
  | noStart => cases p <;> rfl
  | _ => simp only [run,send,if_neg (writeAddress_ne a promAddr),List.nil_append]

theorem run_send_writeCall {a : Byte} {bs : List Byte} {tries berrs : ℕ} {r : Bool} {t : List BusEv}
    (h : Call (WriteEv (writeAddress a) bs) tries berrs r t) (p : SendPhase) :
    run (send promAddr) p t = (.off,[]) := by
  induction h generalizing p with
  | ret ha he => exact run_send_write ha p
  | again ha he hc ih => exact run_append (run_send_write ha p) (ih .off)

theorem serves_write (promAddr addr : Byte) {bs : List Byte} (hl : bs.length < 2^16) (s : Ctl) :
    Serves promAddr s (i2cWrite addr bs [] s).2
      (if (i2cWrite addr bs [] s).1.getD false then [.inl (writeAddress addr::bs)] else []) := by
  obtain ⟨r,hr,hc⟩ := i2cWrite_called addr bs [] s
  obtain ⟨t,hcall,hm⟩ := hc.out
  rw [payload_nil hl] at hcall
  have hsend : run (send promAddr) .off t = (.off,[]) := run_send_writeCall hcall .off
  have hb := run_both_left (run_writeCall hcall .idle) hsend
  rw [hr,Option.getD_some]
  refine ⟨t,hm.trace,hb.trans ?_⟩
  cases r <;> rfl

def cellFrames (twoByte : Bool) (promAddr : Byte) : Word → List Byte → List (List Byte)
  | _, [] => []
  | addr, v::buf => (writeAddress promAddr::(cellAddress twoByte addr ++ [v]))::
      cellFrames twoByte promAddr (addr + 1) buf

def storeCells (twoByte : Bool) : Mem Byte → Word → List Byte → Mem Byte
  | m, _, [] => m
  | m, addr, v::buf => storeCells twoByte (Function.update m (cell twoByte addr) v) (addr + 1) buf

theorem cellAddress_length_lt (twoByte : Bool) (addr : Word) (v : Byte) :
    (cellAddress twoByte addr ++ [v]).length < 2^16 := by
  cases twoByte <;> simp [cellAddress]

/-- The first bytes, all of them exactly if the result is TRUE, one after the other. -/
theorem eepromWrite_serves (addr : Word) (buf : List Byte) (s : Ctl) :
    ∃ n ≤ buf.length, ((eepromWrite twoByte promAddr addr buf s).1 = true ↔ n = buf.length) ∧
      Serves promAddr s (eepromWrite twoByte promAddr addr buf s).2
        ((cellFrames twoByte promAddr addr (buf.take n)).map .inl) := by
  induction buf generalizing addr s with
  | nil => exact ⟨0,le_rfl,iff_of_true rfl rfl,.refl promAddr s⟩
  | cons v buf ih =>
    have hl := cellAddress_length_lt twoByte addr v
    have ht := serves_write promAddr promAddr hl s
    rw [eepromWrite]
    by_cases hr : (i2cWrite promAddr (cellAddress twoByte addr ++ [v]) [] s).1.getD false = true
    · obtain ⟨n,hn,hiff,hts⟩ :=
        ih (addr + 1) (i2cWrite promAddr (cellAddress twoByte addr ++ [v]) [] s).2
      rw [if_pos hr] at ht
      rw [if_pos hr]
      refine ⟨n+1,Nat.succ_le_succ hn,?_,ht.trans hts⟩
      rw [hiff,List.length_cons]
      omega
    · rw [if_neg hr] at ht
      rw [if_neg hr]
      exact ⟨0,Nat.zero_le _,iff_of_false Bool.false_ne_true (Nat.succ_ne_zero _).symm,ht⟩

theorem foldl_inl (p : Prom) (fs : List (List Byte)) :
    (fs.map Sum.inl).foldl (Prom.step twoByte promAddr) p = fs.foldl (Prom.take twoByte promAddr) p :=
  List.foldl_map

theorem foldl_cellFrames (p : Prom) (addr : Word) (buf : List Byte) :
    ((cellFrames twoByte promAddr addr buf).foldl (Prom.take twoByte promAddr) p).cells =
      storeCells twoByte p.cells addr buf := by
  induction buf generalizing addr p with
  | nil => rfl
  | cons v buf ih =>
    rw [cellFrames,List.foldl_cons,take_cellAddress,ih]
    rfl

/-- Cells are told apart by the addresses of less than a whole device. -/
theorem cell_add_ne (addr : Word) {i : ℕ} (hi : i + 1 < size twoByte) :
    cell twoByte (addr + 1 + BitVec.ofNat 16 i) ≠ cell twoByte addr := by
  have hc : cell twoByte addr < size twoByte := cell_lt addr
  have h1 : addr + 1 + BitVec.ofNat 16 i = addr + BitVec.ofNat 16 (i+1) := by
    rw [BitVec.add_assoc,Nat.add_comm i 1,BitVec.ofNat_add]
    rfl
  rw [h1,cell_add]
  intro he
  rcases Nat.lt_or_ge (cell twoByte addr + (i+1)) (size twoByte) with h | h
  · rw [Nat.mod_eq_of_lt h] at he
    omega
  · rw [Nat.mod_eq_sub_mod h,Nat.mod_eq_of_lt (by omega)] at he
    omega

theorem storeCells_of_ne (m : Mem Byte) (addr : Word) (buf : List Byte) {a : ℕ}
    (h : ∀ i < buf.length, a ≠ cell twoByte (addr + BitVec.ofNat 16 i)) :
    storeCells twoByte m addr buf a = m a := by
  induction buf generalizing addr m with
  | nil => rfl
  | cons v buf ih =>
    have h0 := h 0 (Nat.succ_pos _)
    rw [storeCells,ih,Function.update_of_ne]
    · rwa [show addr + BitVec.ofNat 16 0 = addr from BitVec.add_zero addr] at h0
    · intro i hi
      have hs := h (i+1) (Nat.succ_lt_succ hi)
      rwa [Nat.add_comm i 1,BitVec.ofNat_add,← BitVec.add_assoc] at hs

theorem storeCells_get (m : Mem Byte) (addr : Word) {buf : List Byte}
    (hb : buf.length ≤ size twoByte) {i : ℕ} (hi : i < buf.length) :
    storeCells twoByte m addr buf (cell twoByte (addr + BitVec.ofNat 16 i)) = buf.getD i 0 := by
  induction buf generalizing addr m i with
  | nil => exact absurd hi (Nat.not_lt_zero i)
  | cons v buf ih =>
    rw [List.length_cons] at hb
    rcases i with _ | i
    · rw [show addr + BitVec.ofNat 16 0 = addr from BitVec.add_zero addr,storeCells,
        storeCells_of_ne,Function.update_self]
      · rfl
      · intro j hj
        exact (cell_add_ne addr (by omega)).symm
    · rw [Nat.add_comm i 1,BitVec.ofNat_add,← BitVec.add_assoc,Nat.add_comm 1 i,storeCells]
      exact ih _ _ (by omega) (Nat.lt_of_succ_lt_succ hi)

/-- Whatever the bus does, `eeprom_write` stores the first bytes of the buffer and changes no
other cell, and its result is TRUE exactly if these are all the bytes. -/
theorem eepromWrite_stores (p : Prom) (addr : Word) {buf : List Byte}
    (hb : buf.length ≤ size twoByte) (s : Ctl) :
    let r := eepromWrite twoByte promAddr addr buf s
    let p' := p.after twoByte promAddr s r.2
    ∃ n ≤ buf.length, (r.1 = true ↔ n = buf.length) ∧
      (∀ i < n, p'.cells (cell twoByte (addr + BitVec.ofNat 16 i)) = buf.getD i 0) ∧
      ∀ a, (∀ i < n, a ≠ cell twoByte (addr + BitVec.ofNat 16 i)) → p'.cells a = p.cells a := by
  intro r p'
  obtain ⟨n,hn,hiff,ht⟩ := @eepromWrite_serves twoByte promAddr addr buf s
  have hp : p'.cells = storeCells twoByte p.cells addr (buf.take n) := by
    rw [← @foldl_cellFrames twoByte promAddr,← foldl_inl,← ht.served_eq]
    rfl
  have hl : (buf.take n).length = n := List.length_take_of_le hn
  refine ⟨n,hn,hiff,fun i hi => ?_,fun a ha => ?_⟩
  · rw [hp,storeCells_get _ _ (by omega) (by omega),List.getD_eq_getElem?_getD,
      List.getD_eq_getElem?_getD,List.getElem?_take_of_lt hi]
  · rw [hp,storeCells_of_ne]
    rwa [hl]

/-- An EEPROM at `0x50` that answers in `n` reads of I2CS and in no later one. -/
def fading (n : ℕ) : Ctl := Ctl.fresh (fun k => if k < n then 0x03 else 0x01) fun _ => 0

/-- The third of three bytes is refused: the first two are stored in order. -/
theorem eepromWrite_stores_sample :
    let r := eepromWrite false 0x50 0x0010 [0x5a,0x5b,0x5c] (fading 24)
    let p' := (⟨fun _ => 0,0⟩ : Prom).after false 0x50 (fading 24) r.2
    [0x10,0x11,0x12].map p'.cells = [0x5a,0x5b,0x00] ∧
      ∃ n < 3, (∀ i < n, p'.cells (cell false (0x0010 + BitVec.ofNat 16 i)) =
          [0x5a,0x5b,0x5c].getD i 0) ∧
        ∀ a, (∀ i < n, a ≠ cell false (0x0010 + BitVec.ofNat 16 i)) → p'.cells a = 0 := by
  intro r p'
  obtain ⟨n,hn,hiff,hs,hk⟩ :=
    @eepromWrite_stores false 0x50 ⟨fun _ => 0,0⟩ 0x0010 [0x5a,0x5b,0x5c] (by decide) (fading 24)
  have hf : ¬ r.1 = true := by decide +kernel
  exact ⟨by decide +kernel,n,lt_of_le_of_ne hn fun he => hf (hiff.mpr he),hs,hk⟩

def writeAll (twoByte : Bool) (promAddr : Byte) : List (Word × List Byte) → Ctl → Ctl
  | [], s => s
  | w::ws, s => writeAll twoByte promAddr ws (eepromWrite twoByte promAddr w.1 w.2 s).2

theorem writeAll_serves (ws : List (Word × List Byte)) (s : Ctl) :
    ∃ fs : List (List Byte), Serves promAddr s (writeAll twoByte promAddr ws s) (fs.map .inl) ∧
      ∀ (p : Prom) (a : ℕ),
        (∀ w ∈ ws, ∀ i < w.2.length, a ≠ cell twoByte (w.1 + BitVec.ofNat 16 i)) →
          (fs.foldl (Prom.take twoByte promAddr) p).cells a = p.cells a := by
  induction ws generalizing s with
  | nil => exact ⟨[],.refl promAddr s,fun _ _ _ => rfl⟩
  | cons w ws ih =>
    obtain ⟨n,hn,_,ht⟩ := @eepromWrite_serves twoByte promAddr w.1 w.2 s
    obtain ⟨fs,hts,hk⟩ := ih (eepromWrite twoByte promAddr w.1 w.2 s).2
    have hh := ht.trans hts
    rw [← List.map_append] at hh
    refine ⟨_,hh,fun p a ha => ?_⟩
    rw [List.forall_mem_cons] at ha
    rw [List.foldl_append,hk _ _ ha.2,foldl_cellFrames]
    refine storeCells_of_ne _ _ _ fun i hi => ha.1 i ?_
    rw [List.length_take] at hi
    omega

theorem cellsFrom_succ (m : Mem Byte) (q n : ℕ) :
    cellsFrom twoByte m q (n+1) = m (q % size twoByte)::cellsFrom twoByte m (q+1) n := by
  have hi : ∀ i, q + (i+1) = q + 1 + i := by omega
  rw [cellsFrom,List.range_succ_eq_map,List.map_cons,List.map_map,cellsFrom,Nat.add_zero]
  refine congrArg (m (q % size twoByte)::·) (List.map_congr_left fun i _ => ?_)
  exact congrArg (fun j => m (j % size twoByte)) (hi i)

theorem cellsFrom_mod (m : Mem Byte) (q k n : ℕ) :
    cellsFrom twoByte m (q % size twoByte + k) n = cellsFrom twoByte m (q + k) n := by
  simp only [cellsFrom,Nat.add_assoc,Nat.mod_add_mod]

theorem foldl_inr (p : Prom) (hp : p.ptr < size twoByte) (out : List SendEv) :
    (out.map Sum.inr).foldl (Prom.step twoByte promAddr) p =
      {p with ptr := (p.ptr + out.count .clock) % size twoByte} := by
  induction out generalizing p with
  | nil => simp [Nat.mod_eq_of_lt hp]
  | cons e out ih =>
    rw [List.map_cons,List.foldl_cons]
    cases e with
    | clock =>
      rw [ih _ (Nat.mod_lt _ size_pos),List.count_cons_self]
      simp only [Prom.step,Nat.mod_add_mod,Nat.add_assoc,Nat.add_comm 1]
    | byte d =>
      rw [List.count_cons_of_ne (by simp)]
      exact ih p hp

theorem Prom.Sends.append {v : Byte} (h : p.Sends twoByte promAddr v (es ++ es')) :
    ∃ v', (es.foldl (Prom.step twoByte promAddr) p).Sends twoByte promAddr v' es' := by
  induction es generalizing p v with
  | nil => exact ⟨v,h⟩
  | cons e es ih =>
    rcases e with f | _ | d
    · exact ih h
    · exact ih h
    · exact ih h.2

theorem run_send_lastrdIf (last : Prop) [Decidable last] (p : SendPhase) :
    run (send promAddr) p (I2cCall.lastrdIf last) = (p,[]) := by
  unfold I2cCall.lastrdIf
  split_ifs
  · cases p <;> rfl
  · rfl

theorem run_send_fetch (twoByte : Bool) (promAddr : Byte) {n : ℕ} {e : Ending} {t : List BusEv}
    {ds : List Byte} (h : FetchEv n e t ds) :
    ∃ out, run (send promAddr) .sending t = (.off,out) ∧ (e = .complete →
      ds.length = n+1 ∧ out.count .clock = n ∧ ∀ (p : Prom) (q : ℕ), q < size twoByte →
        p.ptr = (q+1) % size twoByte → p.Sends twoByte promAddr (p.cells q) (out.map .inr) →
          ds = cellsFrom twoByte p.cells q (n+1)) := by
  induction h with
  | lost | hung => exact ⟨[],rfl,nofun⟩
  | @last v =>
    refine ⟨[.byte v],rfl,fun _ => ⟨rfl,rfl,fun p q hq _ hs => ?_⟩⟩
    rw [cellsFrom_succ,Nat.mod_eq_of_lt hq,← hs.1]
    rfl
  | @next n v e t ds h ih =>
    obtain ⟨out,hr,ho⟩ := ih
    have hg : run (send promAddr) .sending (.got v::t) = (.off,.byte v::.clock::out) := by
      simp only [run,send,hr,List.cons_append,List.nil_append]
    refine ⟨_,run_append (run_send_lastrdIf (n = 0) .sending) hg,fun he => ?_⟩
    obtain ⟨hl,hc,hs⟩ := ho he
    refine ⟨by rw [List.length_cons,hl],?_,fun p q hq hp hsends => ?_⟩
    · rw [List.nil_append,List.count_cons_of_ne (by simp),List.count_cons_self,hc]
    · obtain ⟨hv,hrest⟩ := hsends
      change (p.step twoByte promAddr (.inr .clock)).Sends twoByte promAddr (p.cells p.ptr) _ at hrest
      rw [hp] at hrest
      have hd := hs (p.step twoByte promAddr (.inr .clock)) ((q+1) % size twoByte)
        (Nat.mod_lt _ size_pos) (by rw [Prom.step,hp]) hrest
      have hm := @cellsFrom_mod twoByte p.cells (q+1) 0 (n+1)
      rw [Nat.add_zero,Nat.add_zero] at hm
      rw [hd,cellsFrom_succ _ q,Nat.mod_eq_of_lt hq,hv]
      exact congrArg (p.cells q::·) hm

/-- An attempt to read. A whole one clocks as many bytes as it reads, from the counter on. -/
theorem run_send_read (twoByte : Bool) {len : ℕ} (hl : 0 < len) {e : Ending} {t : List BusEv}
    {ds : List Byte} (h : ReadEv (readAddress promAddr) len e t ds) (ph : SendPhase) :
    ∃ out, run (send promAddr) ph t = (.off,out) ∧ (e = .complete →
      ds.length = len ∧ out.count .clock = len ∧ ∀ (p : Prom) (v : Byte), p.ptr < size twoByte →
        p.Sends twoByte promAddr v (out.map .inr) → ds = cellsFrom twoByte p.cells p.ptr len) := by
  cases h with
  | @data v e t ds h =>
    obtain ⟨out,hr,ho⟩ := run_send_fetch twoByte promAddr h
    have hg : run (send promAddr) .selected (.got v::t) = (.off,.clock::out) := by
      simp only [run,send,hr,List.cons_append,List.nil_append]
    have hd := run_append (run_send_lastrdIf (len = 1) .selected) hg
    refine ⟨.clock::out,?_,fun he => ?_⟩
    · simp only [run,send,if_true,hd,List.nil_append]
    · obtain ⟨hlen,hc,hs⟩ := ho he
      have h1 : len - 1 + 1 = len := by omega
      rw [h1] at hlen hs
      refine ⟨hlen,by rw [List.count_cons_self,hc,h1],fun p v hp hsends => ?_⟩
      exact hs (p.step twoByte promAddr (.inr .clock)) p.ptr hp rfl hsends
  | noStart => exact ⟨[],by cases ph <;> rfl,fun he => Ending.noConfusion he⟩
  | _ =>
    refine ⟨[],?_,fun he => Ending.noConfusion he⟩
    simp only [run,send,if_true,List.nil_append]

/-- A call of `i2c_read` that succeeds, with the bytes in its buffer: attempts that break off, and
a whole one. -/
inductive Fetches (a : Byte) (len : ℕ) (ds : List Byte) : List BusEv → Prop
  | ret {t} (h : ReadEv a len .complete t ds) : Fetches a len ds t
  | again {e t t' ds'} (h : ReadEv a len e t ds') (hf : Fetches a len ds t') :
      Fetches a len ds (t ++ t')

theorem readAttempts_fetches (addr : Byte) {len : ℕ} (hl : 0 < len) (fuel berrs : ℕ) (buf : Mem Byte)
    (s : Ctl) (hc : s.cancel = false) (h : (readAttempts addr len fuel berrs buf s).1 = some true) :
    ∃ t, Grows observe s.trace (readAttempts addr len fuel berrs buf s).2.2.trace .off .off t ∧
      Fetches (readAddress addr) len (load (readAttempts addr len fuel berrs buf s).2.1 0 len) t := by
  induction fuel generalizing berrs buf s with
  | zero => cases h
  | succ fuel ih =>
    obtain ⟨e,t,⟨ds,hd,hb⟩,hx,hm⟩ := (readAttempt_attempted addr len berrs buf s hc).out
    rw [readAttempts] at h ⊢
    rcases he : readAttempt addr len berrs buf s with ⟨r | ⟨tries',berrs'⟩,buf',s'⟩
    · rw [he] at h hb hx hm
      obtain rfl : r = true := Option.some.inj h
      obtain rfl := exitOf_true hx.symm
      obtain ⟨_,_,ho⟩ := run_send_read false hl hd .off
      have hds : load buf' 0 len = ds := by
        simp only at hb
        rw [hb,← (ho rfl).1,load_store]
      refine ⟨t,hm.trace,.ret ?_⟩
      simp only [hds]
      exact hd
    · rw [he] at h hm
      obtain ⟨t',hg,hf⟩ := ih berrs' buf' s' (hm.cancel.trans hc) h
      exact ⟨t ++ t',Grows.trans hm.trace hg,.again hd hf⟩

/-- The bytes come from the cells behind those that the broken attempts have clocked. -/
theorem Fetches.sends (twoByte : Bool) {len : ℕ} (hl : 0 < len) {ds : List Byte} {t : List BusEv}
    (h : Fetches (readAddress promAddr) len ds t) (ph : SendPhase) (fp : FramePhase) :
    run frame fp t = (.idle,[]) ∧ ∃ out, run (send promAddr) ph t = (.off,out) ∧
      len ≤ out.count .clock ∧ ∀ (p : Prom) (v : Byte), p.ptr < size twoByte →
        p.Sends twoByte promAddr v (out.map .inr) →
          ds = cellsFrom twoByte p.cells (p.ptr + (out.count .clock - len)) len := by
  induction h generalizing ph fp with
  | ret hr =>
    obtain ⟨out,ho,hs⟩ := run_send_read twoByte hl hr ph
    obtain ⟨_,hc,hs⟩ := hs rfl
    refine ⟨run_read hr fp,out,ho,hc.ge,fun p v hp hsends => ?_⟩
    rw [hc,Nat.sub_self]
    exact hs p v hp hsends
  | again hr hf ih =>
    obtain ⟨out,ho,_⟩ := run_send_read twoByte hl hr ph
    obtain ⟨hframe,out',ho',hle,hs⟩ := ih .off .idle
    refine ⟨run_append (run_read hr fp) hframe,out ++ out',run_append ho ho',?_,
      fun p v hp hsends => ?_⟩
    · rw [List.count_append]
      omega
    · rw [List.map_append] at hsends
      obtain ⟨v',hsends⟩ := hsends.append
      rw [foldl_inr p hp] at hsends
      rw [hs _ v' (Nat.mod_lt _ size_pos) hsends,cellsFrom_mod,List.count_append,Nat.add_assoc]
      congr 1
      omega

/-- A read that succeeds has set the address counter, and its bytes are the cells from there on,
behind those that were clocked in vain. -/
theorem eepromRead_serves (addr : Word) {length : ℕ} (hl : 0 < length) (buf : Mem Byte) (s : Ctl)
    (h : (eepromRead twoByte promAddr addr length buf s).1 = true) :
    let r := eepromRead twoByte promAddr addr length buf s
    ∃ out : List SendEv, Serves promAddr s r.2.2
        ([.inl (writeAddress promAddr::cellAddress twoByte addr)] ++ out.map .inr) ∧
      length ≤ out.count .clock ∧ ∀ (p : Prom) (v : Byte), p.ptr < size twoByte →
        p.Sends twoByte promAddr v (out.map .inr) →
          load r.2.1 0 length = cellsFrom twoByte p.cells (p.ptr + (out.count .clock - length)) length := by
  have hlen : (cellAddress twoByte addr).length < 2^16 := by
    cases twoByte <;> simp [cellAddress]
  have ht := serves_write promAddr promAddr hlen s
  rw [eepromRead] at h ⊢
  by_cases hw : (i2cWrite promAddr (cellAddress twoByte addr) [] s).1.getD false = true
  · rw [if_pos hw] at h ht ⊢
    generalize (i2cWrite promAddr (cellAddress twoByte addr) [] s).2 = s' at h ht ⊢
    obtain ⟨r,hr⟩ := Option.isSome_iff_exists.mp (i2cRead_isSome promAddr length buf s')
    simp only [hr,Option.getD_some] at h
    obtain ⟨t,hg,hf⟩ := readAttempts_fetches promAddr hl 20 0 buf (clearCancel s') rfl (h ▸ hr)
    obtain ⟨hframe,out,ho,hle,hs⟩ := hf.sends twoByte hl .off .idle
    exact ⟨out,ht.trans ⟨t,hg,run_both_right hframe ho⟩,hle,hs⟩
  · rw [if_neg hw] at h
    cases h

/-- A buffer that was written with success, and whatever calls in between that are not about its
cells. A read that succeeds returns the device's cells from its address on, but behind as many as
were clocked in attempts that broke off; without such an attempt it returns the buffer. -/
theorem eeprom_round_trip (p : Prom) (v : Byte) (addr : Word) {buf : List Byte}
    (hb : buf.length ≤ size twoByte) (ws : List (Word × List Byte))
    (hws : ∀ w ∈ ws, ∀ i < w.2.length, ∀ j < buf.length,
      cell twoByte (addr + BitVec.ofNat 16 j) ≠ cell twoByte (w.1 + BitVec.ofNat 16 i))
    (rbuf : Mem Byte) (s : Ctl) :
    let w := eepromWrite twoByte promAddr addr buf s
    let s₁ := writeAll twoByte promAddr ws w.2
    let r := eepromRead twoByte promAddr addr buf.length rbuf s₁
    let k := clocks promAddr s₁ r.2.2
    p.Sends twoByte promAddr v (served promAddr s r.2.2) → w.1 = true → r.1 = true →
      load r.2.1 0 buf.length = cellsFrom twoByte (p.after twoByte promAddr s r.2.2).cells
        (cell twoByte addr + (k - buf.length)) buf.length ∧
      (k ≤ buf.length → load r.2.1 0 buf.length = buf) := by
  intro w s₁ r k hsends hw hr
  rcases Nat.eq_zero_or_pos buf.length with h0 | h0
  · rw [List.length_eq_zero_iff] at h0
    subst h0
    exact ⟨rfl,fun _ => rfl⟩
  obtain ⟨n,hn,hiff,ht⟩ := @eepromWrite_serves twoByte promAddr addr buf s
  rw [hiff.mp hw,List.take_length] at ht
  obtain ⟨fs,hts,hkeep⟩ := @writeAll_serves twoByte promAddr ws w.2
  obtain ⟨out,hsel,hle,hout⟩ := eepromRead_serves addr h0 rbuf s₁ hr
  have hk : k = out.count .clock := by
    have hc : k = ((served promAddr s₁ r.2.2).filterMap Sum.getRight?).count .clock := rfl
    rw [hc,hsel.served_eq,List.filterMap_append,List.filterMap_map]
    exact congrArg (List.count SendEv.clock) (List.filterMap_some (l:=out))
  have hall := (ht.trans hts).trans hsel
  rw [hall.served_eq,← List.append_assoc] at hsends
  -- the device where the read has selected it
  have hat : ((cellFrames twoByte promAddr addr buf).map Sum.inl ++ fs.map Sum.inl ++
      [Sum.inl (writeAddress promAddr::cellAddress twoByte addr)]).foldl
        (Prom.step twoByte promAddr) p =
      ⟨(fs.foldl (Prom.take twoByte promAddr) ((cellFrames twoByte promAddr addr buf).foldl
        (Prom.take twoByte promAddr) p)).cells,cell twoByte addr⟩ := by
    rw [List.foldl_append,List.foldl_append,foldl_inl,foldl_inl]
    exact take_select addr
  have hcells : ∀ j < buf.length, (fs.foldl (Prom.take twoByte promAddr)
      ((cellFrames twoByte promAddr addr buf).foldl (Prom.take twoByte promAddr) p)).cells
        (cell twoByte (addr + BitVec.ofNat 16 j)) = buf.getD j 0 := by
    intro j hj
    rw [hkeep _ _ fun v hv i hi => hws v hv i hi j hj,foldl_cellFrames,storeCells_get _ _ hb hj]
  obtain ⟨v',hsends⟩ := hsends.append
  rw [hat] at hsends
  have hafter : (p.after twoByte promAddr s r.2.2).cells = (fs.foldl (Prom.take twoByte promAddr)
      ((cellFrames twoByte promAddr addr buf).foldl (Prom.take twoByte promAddr) p)).cells := by
    rw [Prom.after,hall.served_eq,← List.append_assoc,List.foldl_append,hat,foldl_inr _ (cell_lt addr)]
  have hload := hout _ v' (cell_lt addr) hsends
  refine ⟨by rw [hafter,hk]; exact hload,fun hkl => ?_⟩
  rw [hk] at hkl
  refine hload.trans ?_
  rw [Nat.sub_eq_zero_of_le hkl,Nat.add_zero]
  refine List.ext_getElem (by simp [cellsFrom]) fun i hi hi' => ?_
  simp only [cellsFrom,List.getElem_map,List.getElem_range]
  rw [← cell_add,hcells i hi',List.getD_eq_getElem _ _ hi']

/-- An EEPROM at `0x50` with a bus error in the `n`-th read of I2CS, and what is on I2DAT. -/
def prom (n : ℕ) (dat : List Byte) : Ctl :=
  Ctl.fresh (fun k => if k = n then 0x04 else 0x03) fun i => dat.getD i 0

/-- A bus error at the START of the read does no harm; one behind the first byte clocked shifts
what is read by a cell. Another cell is written in between. -/
theorem eeprom_round_trip_sample :
    load (eepromRead false 0x50 0x0010 2 (fun _ => 0) (writeAll false 0x50 [(0x0020,[0x77])]
      (eepromWrite false 0x50 0x0010 [0x5a,0x5b] (prom 50 [0xff,0x5a,0x5b])).2)).2.1 0 2 =
        [0x5a,0x5b] ∧
    load (eepromRead false 0x50 0x0010 2 (fun _ => 0) (writeAll false 0x50 [(0x0020,[0x77])]
      (eepromWrite false 0x50 0x0010 [0x5a,0x5b] (prom 55 [0xff,0xff,0x5b,0x00])).2)).2.1 0 2 =
        [0x5b,0x00] := by
  have h (dat : List Byte) (n : ℕ) := @eeprom_round_trip false 0x50 ⟨fun _ => 0,0⟩ 0 0x0010
    [0x5a,0x5b] (by decide) [(0x0020,[0x77])] (by decide) (fun _ => 0) (prom n dat)
  refine ⟨(h [0xff,0x5a,0x5b] 50 ?_ ?_ ?_).2 ?_,(h [0xff,0xff,0x5b,0x00] 55 ?_ ?_ ?_).1.trans ?_⟩ <;>
    decide +kernel

end Eeprom
end AkbPcr20x
