import AkbPcr20x.Basic
import AkbPcr20x.Memory

/-! The I2C adapter of the driver. A message list is cut into transactions, each
transaction is laid out in the shared buffer `wbuf` store by store, and the
front of the buffer goes out as one bulk packet. -/
namespace AkbPcr20x
namespace I2cXfer

open Memory

def maxI2cBufferSize : ℕ := 64
def u8Max : ℕ := 255
def fx2I2cRead : Byte := 0x60
def fx2I2cWrite : Byte := 0x61
def i2cMRd : Word := 0x0001
def i2cMTen : Word := 0x0010

/-- `struct i2c_msg`; the `u16` length is that of the buffer. -/
structure I2cMsg where
  addr : Word
  flags : Word
  buf : List Byte
  length_lt : buf.length < 2^16

def I2cMsg.len (m : I2cMsg) : ℕ := m.buf.length

def I2cMsg.isRead (m : I2cMsg) : Bool := decide (m.flags &&& i2cMRd ≠ 0)

def I2cMsg.isTen (m : I2cMsg) : Bool := decide (m.flags &&& i2cMTen ≠ 0)

/-- One assignment to `wbuf`: a value, or a cell copied inside the buffer. -/
inductive Store
  | put (i : ℕ) (v : Byte)
  | copy (i j : ℕ)
  deriving DecidableEq

def Store.apply (wbuf : Mem Byte) : Store → Mem Byte
  | .put i v => Function.update wbuf i v
  | .copy i j => Function.update wbuf i (wbuf j)

def memcpy (i : ℕ) : List Byte → List Store
  | [] => []
  | x::xs => .put i x :: memcpy (i+1) xs

def fill (wbuf : Mem Byte) (ss : List Store) : Mem Byte := ss.foldl Store.apply wbuf

inductive Transaction
  | write (m : I2cMsg)
  | pair (m r : I2cMsg)

def Transaction.msgs : Transaction → List I2cMsg
  | .write m => [m]
  | .pair m r => [m,r]

def Transaction.stores : Transaction → List Store
  | .write m =>
    [.put 0 fx2I2cWrite,.put 1 (m.addr.setWidth 8),.put 2 (BitVec.ofNat 8 m.len)] ++
      memcpy 3 m.buf
  | .pair m r =>
    [.put 0 fx2I2cWrite,.put 1 (m.addr.setWidth 8),.put 2 (BitVec.ofNat 8 m.len)] ++
      memcpy 3 m.buf ++
      [.put (3+m.len) fx2I2cRead,.copy (4+m.len) 1,.put (5+m.len) (BitVec.ofNat 8 r.len)]

def Transaction.wlen : Transaction → ℕ
  | .write m => 3 + m.len
  | .pair m _ => 3 + m.len + 3

def turnPair (m r : I2cMsg) : Except ℤ Transaction :=
  if r.len = 0 ∨ u8Max < r.len then .error (-Errno.eopnotsupp)
  else if maxI2cBufferSize < r.len then .error (-Errno.einval)
  else if maxI2cBufferSize < 3 + m.len + 3 then .error (-Errno.einval)
  else .ok (.pair m r)

def turnWrite (m : I2cMsg) : Except ℤ Transaction :=
  if maxI2cBufferSize < 3 + m.len then .error (-Errno.einval) else .ok (.write m)

def turn (m : I2cMsg) (next : Option I2cMsg) : Except ℤ Transaction :=
  if m.len = 0 ∨ u8Max < m.len then .error (-Errno.eopnotsupp)
  else if u8Max < m.addr.toNat ∨ m.isTen then .error (-Errno.eopnotsupp)
  else if m.isRead then .error (-Errno.eopnotsupp)
  else
    match next.filter (fun r => r.isRead && decide (m.addr = r.addr)) with
    | some r => turnPair m r
    | none => turnWrite m

/-- The bulk transfers of the DVB USB layer. `genericRw` also returns the bytes it
received. -/
structure Usb (υ : Type) where
  genericWrite : List Byte → υ → ℤ × υ
  genericRw : List Byte → ℕ → υ → ℤ × List Byte × υ
  clearHalt : υ → υ

/-- The buffers of `struct akb_pcr20x`, the USB side, the packets submitted so far
and the message index and contents of every read handed back. -/
structure Xfer (υ : Type) where
  wbuf : Mem Byte
  rbuf : Mem Byte
  usb : υ
  sent : List (List Byte)
  reads : List (ℕ × List Byte)

variable {υ : Type}

def reliable (rbytes : List Byte) : Usb Unit where
  genericWrite _ s := (0,s)
  genericRw _ rlen s := (0,rbytes.take rlen,s)
  clearHalt s := s

def Xfer.zero (s : υ) : Xfer υ := ⟨fun _ => 0,fun _ => 0,s,[],[]⟩

/-- Staging and submission of one transaction starting at message `i`. -/
def submit (u : Usb υ) (i : ℕ) (x : Xfer υ) (t : Transaction) : ℤ × Xfer υ :=
  let wbuf := fill x.wbuf t.stores
  let packet := load wbuf 0 t.wlen
  match t with
  | .write _ =>
    let r := u.genericWrite packet x.usb
    (r.1,{x with wbuf := wbuf, usb := r.2, sent := x.sent ++ [packet]})
  | .pair _ m =>
    let r := u.genericRw packet m.len x.usb
    let rbuf := store x.rbuf 0 r.2.1
    if r.1 < 0 then
      let usb := if r.1 = -Errno.eoverflow then u.clearHalt r.2.2 else r.2.2
      (r.1,{x with wbuf := wbuf, rbuf := rbuf, usb := usb, sent := x.sent ++ [packet]})
    else
      (r.1,{x with wbuf := wbuf, rbuf := rbuf, usb := r.2.2, sent := x.sent ++ [packet],
                   reads := x.reads ++ [(i+1,load rbuf 0 m.len)]})

/-- The message loop. Every turn consumes a message, so the list length is enough fuel. -/
def xferLoop (u : Usb υ) (msgs : List I2cMsg) : ℕ → ℕ → Xfer υ → ℤ × Xfer υ
  | 0, _, x => (msgs.length,x)
  | fuel+1, i, x =>
    if h : i < msgs.length then
      match turn msgs[i] msgs[i+1]? with
      | .error e => (e,x)
      | .ok t =>
        let r := submit u i x t
        if r.1 < 0 then r else xferLoop u msgs fuel (i+t.msgs.length) r.2
    else (msgs.length,x)

/-- `lock` is false when taking `i2c_mutex` is interrupted. -/
def i2cXfer (u : Usb υ) (lock : Bool) (msgs : List I2cMsg) (x : Xfer υ) : ℤ × Xfer υ :=
  if lock then xferLoop u msgs msgs.length 0 x else (-Errno.erestartsys,x)

def writeCommand (addr : Byte) (data : List Byte) : List Byte :=
  fx2I2cWrite::addr::BitVec.ofNat 8 data.length::data

def readCommand (addr : Byte) (rlen : ℕ) : List Byte := [fx2I2cRead,addr,BitVec.ofNat 8 rlen]

def Transaction.packet : Transaction → List Byte
  | .write m => writeCommand (m.addr.setWidth 8) m.buf
  | .pair m r => writeCommand (m.addr.setWidth 8) m.buf ++ readCommand (m.addr.setWidth 8) r.len

@[simp] theorem writeCommand_length (addr : Byte) (data : List Byte) :
    (writeCommand addr data).length = 3 + data.length := by
  simp only [writeCommand,List.length_cons]
  omega

@[simp] theorem readCommand_length (addr : Byte) (rlen : ℕ) :
    (readCommand addr rlen).length = 3 := rfl

theorem Transaction.packet_length (t : Transaction) : t.packet.length = t.wlen := by
  cases t <;> simp [Transaction.packet,Transaction.wlen,I2cMsg.len]

theorem fill_append (wbuf : Mem Byte) (ss ts : List Store) :
    fill wbuf (ss++ts) = fill (fill wbuf ss) ts := List.foldl_append

theorem fill_memcpy (wbuf : Mem Byte) (i : ℕ) (xs : List Byte) :
    fill wbuf (memcpy i xs) = store wbuf i xs := by
  induction xs generalizing wbuf i with
  | nil => rfl
  | cons x xs ih => exact ih (Function.update wbuf i x) (i+1)

theorem fill_write (wbuf : Mem Byte) (a b c : Byte) (data : List Byte) :
    fill wbuf ([.put 0 a,.put 1 b,.put 2 c] ++ memcpy 3 data) = store wbuf 0 (a::b::c::data) := by
  rw [fill_append,fill_memcpy]
  rfl

/-- The stores of a turn leave exactly the packet in front of the buffer, whatever
the buffer held. -/
theorem Transaction.load_fill (t : Transaction) (wbuf : Mem Byte) :
    load (fill wbuf t.stores) 0 t.wlen = t.packet := by
  rw [← t.packet_length]
  cases t with
  | write m =>
    rw [Transaction.stores,fill_write]
    exact load_store wbuf 0 (writeCommand (m.addr.setWidth 8) m.buf)
  | pair m r =>
    let w := writeCommand (m.addr.setWidth 8) m.buf
    have hw : w.length = 3 + m.len := writeCommand_length _ _
    -- cell 1 still holds the address when it is copied behind the read opcode
    have hc : Function.update (store wbuf 0 w) (3+m.len) fx2I2cRead 1 = m.addr.setWidth 8 := by
      rw [Function.update_of_ne (by omega)]
      simp only [w,writeCommand,store_cons]
      rw [store_of_lt _ _ _ (by omega),Function.update_of_ne (by omega),Function.update_self]
    have hf : fill wbuf (Transaction.pair m r).stores =
        store wbuf 0 (Transaction.pair m r).packet := by
      rw [Transaction.stores,fill_append,fill_write,Transaction.packet,store_append]
      change Function.update (Function.update (Function.update (store wbuf 0 w) _ _) _
        (Function.update (store wbuf 0 w) (3+m.len) fx2I2cRead 1)) _ _ = store (store wbuf 0 w) _ _
      rw [hc,show 0+w.length = 3+m.len by omega]
      simp only [readCommand,store_cons,store_nil]
      rw [show 3+m.len+1 = 4+m.len by omega,show 4+m.len+1 = 5+m.len by omega]
    rw [hf,load_store]

def Transaction.Accepted : Transaction → Prop
  | .write m =>
    m.addr.toNat ≤ u8Max ∧ m.isTen = false ∧ m.isRead = false ∧ 1 ≤ m.len ∧ m.len ≤ 61
  | .pair m r =>
    m.addr.toNat ≤ u8Max ∧ m.isTen = false ∧ m.isRead = false ∧ 1 ≤ m.len ∧ m.len ≤ 58 ∧
      r.isRead = true ∧ m.addr = r.addr ∧ 1 ≤ r.len ∧ r.len ≤ 64

theorem turnPair_cases (m r : I2cMsg) :
    (∃ e < 0, turnPair m r = .error e) ∨
      turnPair m r = .ok (.pair m r) ∧ m.len ≤ 58 ∧ 1 ≤ r.len ∧ r.len ≤ 64 := by
  unfold turnPair
  split_ifs with h₁ h₂ h₃
  · exact Or.inl ⟨_,by decide,rfl⟩
  · exact Or.inl ⟨_,by decide,rfl⟩
  · exact Or.inl ⟨_,by decide,rfl⟩
  · simp only [maxI2cBufferSize] at h₂ h₃
    exact Or.inr ⟨rfl,by omega,by omega,by omega⟩

theorem turnWrite_cases (m : I2cMsg) :
    (∃ e < 0, turnWrite m = .error e) ∨ turnWrite m = .ok (.write m) ∧ m.len ≤ 61 := by
  unfold turnWrite
  split_ifs with h
  · exact Or.inl ⟨_,by decide,rfl⟩
  · simp only [maxI2cBufferSize] at h
    exact Or.inr ⟨rfl,by omega⟩

/-- Everything a turn can decide: a negative error, the write alone when no read at
the same address is next, or the pair. -/
theorem turn_cases (m : I2cMsg) (next : Option I2cMsg) :
    (∃ e < 0, turn m next = .error e) ∨
    (turn m next = .ok (.write m) ∧ (Transaction.write m).Accepted ∧
      ∀ r, next = some r → ¬ (r.isRead = true ∧ m.addr = r.addr)) ∨
    ∃ r, next = some r ∧ turn m next = .ok (.pair m r) ∧ (Transaction.pair m r).Accepted := by
  by_cases h₁ : m.len = 0 ∨ u8Max < m.len
  · exact Or.inl ⟨-Errno.eopnotsupp,by decide,by rw [turn,if_pos h₁]⟩
  by_cases h₂ : u8Max < m.addr.toNat ∨ m.isTen
  · exact Or.inl ⟨-Errno.eopnotsupp,by decide,by rw [turn,if_neg h₁,if_pos h₂]⟩
  by_cases h₃ : m.isRead
  · exact Or.inl ⟨-Errno.eopnotsupp,by decide,by rw [turn,if_neg h₁,if_neg h₂,if_pos h₃]⟩
  simp only [turn,if_neg h₁,if_neg h₂,if_neg h₃]
  simp only [not_or,not_lt,Bool.not_eq_true] at h₁ h₂ h₃
  cases hf : next.filter (fun r => r.isRead && decide (m.addr = r.addr)) with
  | some r =>
    obtain ⟨rfl,hp⟩ := Option.filter_eq_some_iff.mp hf
    simp only [Bool.and_eq_true,decide_eq_true_eq] at hp
    rcases turnPair_cases m r with he | ⟨he,hm,hr₁,hr₂⟩
    · exact Or.inl he
    · exact Or.inr (Or.inr ⟨r,rfl,he,h₂.1,h₂.2,h₃,by omega,hm,hp.1,hp.2,hr₁,hr₂⟩)
  | none =>
    rcases turnWrite_cases m with he | ⟨he,hm⟩
    · exact Or.inl he
    · refine Or.inr (Or.inl ⟨he,⟨h₂.1,h₂.2,h₃,by omega,hm⟩,?_⟩)
      rintro r rfl ⟨h₄,h₅⟩
      simp [Option.filter,h₄,h₅] at hf

theorem turn_ok {msgs : List I2cMsg} {i : ℕ} (h : i < msgs.length) {t : Transaction}
    (ht : turn msgs[i] msgs[i+1]? = .ok t) :
    t.Accepted ∧ t.msgs ++ msgs.drop (i+t.msgs.length) = msgs.drop i := by
  have hd : msgs.drop i = msgs[i]::msgs.drop (i+1) := List.drop_eq_getElem_cons h
  rcases turn_cases msgs[i] msgs[i+1]? with ⟨e,_,he⟩ | ⟨he,ha,_⟩ | ⟨r,hr,he,ha⟩
  · cases he.symm.trans ht
  · cases he.symm.trans ht
    exact ⟨ha,hd.symm⟩
  · cases he.symm.trans ht
    obtain ⟨hi,rfl⟩ := List.getElem?_eq_some_iff.mp hr
    refine ⟨ha,?_⟩
    rw [hd,List.drop_eq_getElem_cons hi]
    rfl

theorem turn_error {m : I2cMsg} {next : Option I2cMsg} {e : ℤ} (h : turn m next = .error e) :
    e < 0 := by
  rcases turn_cases m next with ⟨e',hlt,he⟩ | ⟨he,_⟩ | ⟨r,_,he,_⟩
  · cases he.symm.trans h
    exact hlt
  · cases he.symm.trans h
  · cases he.symm.trans h

theorem Transaction.msgs_length_pos (t : Transaction) : 0 < t.msgs.length := by
  cases t <;> simp [Transaction.msgs]

theorem Transaction.packet_length_le (t : Transaction) (h : t.Accepted) :
    3 < t.packet.length ∧ t.packet.length ≤ maxI2cBufferSize := by
  rw [t.packet_length,maxI2cBufferSize]
  cases t with
  | write m =>
    obtain ⟨_,_,_,h₁,h₂⟩ := h
    simp only [Transaction.wlen]
    omega
  | pair m r =>
    obtain ⟨_,_,_,h₁,h₂,_⟩ := h
    simp only [Transaction.wlen]
    omega

@[simp] theorem submit_sent (u : Usb υ) (i : ℕ) (x : Xfer υ) (t : Transaction) :
    (submit u i x t).2.sent = x.sent ++ [t.packet] := by
  have h := t.load_fill x.wbuf
  cases t with
  | write m => simp only [submit,h]
  | pair m r =>
    simp only [submit,h]
    split <;> rfl

/-- The loop sends the packets of accepted transactions that split a prefix of the
remaining messages, and it returns the message count exactly when nothing is left. -/
theorem xferLoop_spec (u : Usb υ) (msgs : List I2cMsg) (fuel i : ℕ) (x : Xfer υ)
    (hf : msgs.length - i ≤ fuel) :
    ∃ ts : List Transaction, (∀ t ∈ ts, t.Accepted) ∧
      (xferLoop u msgs fuel i x).2.sent = x.sent ++ ts.map Transaction.packet ∧
      ((xferLoop u msgs fuel i x).1 = msgs.length ∧
          ts.flatMap Transaction.msgs = msgs.drop i ∨
        (xferLoop u msgs fuel i x).1 < 0 ∧
          ts.flatMap Transaction.msgs <+: msgs.drop i) := by
  induction fuel generalizing i x with
  | zero =>
    refine ⟨[],by simp,by simp [xferLoop],Or.inl ⟨rfl,?_⟩⟩
    rw [List.drop_of_length_le (by omega)]
    rfl
  | succ fuel ih =>
    rw [xferLoop]
    by_cases h : i < msgs.length
    · rw [dif_pos h]
      cases ht : turn msgs[i] msgs[i+1]? with
      | error e => exact ⟨[],by simp,by simp,Or.inr ⟨turn_error ht,by simp⟩⟩
      | ok t =>
        obtain ⟨ha,hd⟩ := turn_ok h ht
        have hs := submit_sent u i x t
        by_cases hr : (submit u i x t).1 < 0
        · simp only [if_pos hr]
          refine ⟨[t],by simpa using ha,by simp,Or.inr ⟨hr,?_⟩⟩
          rw [← hd]
          simp
        · simp only [if_neg hr]
          have hp := t.msgs_length_pos
          obtain ⟨ts,hts,hsent,hret⟩ := ih (i+t.msgs.length) (submit u i x t).2 (by omega)
          refine ⟨t::ts,by simpa using ⟨ha,hts⟩,by rw [hsent,hs]; simp,?_⟩
          rw [← hd,List.flatMap_cons]
          rcases hret with ⟨h₁,h₂⟩ | ⟨h₁,h₂⟩
          · exact Or.inl ⟨h₁,by rw [h₂]⟩
          · exact Or.inr ⟨h₁,(List.prefix_append_right_inj _).mpr h₂⟩
    · rw [dif_neg h]
      refine ⟨[],by simp,by simp,Or.inl ⟨rfl,?_⟩⟩
      rw [List.drop_of_length_le (by omega)]
      rfl

/-- What a call sends, for every list, lock outcome and USB behaviour. -/
theorem i2cXfer_spec (u : Usb υ) (lock : Bool) (msgs : List I2cMsg) (x : Xfer υ) :
    ∃ ts : List Transaction, (∀ t ∈ ts, t.Accepted) ∧
      (i2cXfer u lock msgs x).2.sent = x.sent ++ ts.map Transaction.packet ∧
      ((i2cXfer u lock msgs x).1 = msgs.length ∧ ts.flatMap Transaction.msgs = msgs ∨
        (i2cXfer u lock msgs x).1 < 0 ∧ ts.flatMap Transaction.msgs <+: msgs) := by
  cases lock with
  | false => exact ⟨[],by simp,by simp [i2cXfer],Or.inr ⟨by simp [i2cXfer,Errno.erestartsys],by simp⟩⟩
  | true => exact xferLoop_spec u msgs msgs.length 0 x (by omega)

theorem turn_write {m : I2cMsg} (h : (Transaction.write m).Accepted) :
    turn m none = .ok (.write m) := by
  obtain ⟨h₁,h₂,h₃,h₄,h₅⟩ := h
  have hl : ¬ (m.len = 0 ∨ u8Max < m.len) := by
    simp only [u8Max]
    omega
  have ha : ¬ (u8Max < m.addr.toNat ∨ m.isTen = true) := by simp [h₁,h₂]
  have hw : ¬ maxI2cBufferSize < 3 + m.len := by
    simp only [maxI2cBufferSize]
    omega
  simp [turn,hl,ha,h₃,turnWrite,hw]

theorem turn_pair {m r : I2cMsg} (h : (Transaction.pair m r).Accepted) :
    turn m (some r) = .ok (.pair m r) := by
  obtain ⟨h₁,h₂,h₃,h₄,h₅,h₆,h₇,h₈,h₉⟩ := h
  have hl : ¬ (m.len = 0 ∨ u8Max < m.len) := by
    simp only [u8Max]
    omega
  have ha : ¬ (u8Max < m.addr.toNat ∨ m.isTen = true) := by simp [h₁,h₂]
  have hr : ¬ (r.len = 0 ∨ u8Max < r.len) := by
    simp only [u8Max]
    omega
  have hb : ¬ maxI2cBufferSize < r.len := by
    simp only [maxI2cBufferSize]
    omega
  have hw : ¬ maxI2cBufferSize < 3 + m.len + 3 := by
    simp only [maxI2cBufferSize]
    omega
  have hf : (some r).filter (fun r => r.isRead && decide (m.addr = r.addr)) = some r := by
    simp [Option.filter,h₆,h₇]
  simp [turn,hl,ha,h₃,hf,turnPair,hr,hb,hw]

theorem i2cXfer_write (u : Usb υ) (x : Xfer υ) {m : I2cMsg} (h : (Transaction.write m).Accepted) :
    i2cXfer u true [m] x =
      if (submit u 0 x (.write m)).1 < 0 then submit u 0 x (.write m)
      else (1,(submit u 0 x (.write m)).2) := by
  have ht : turn [m][0] [m][0+1]? = .ok (.write m) := turn_write h
  change xferLoop u [m] (0+1) 0 x = _
  rw [xferLoop,dif_pos (by simp),ht]
  rfl

theorem i2cXfer_pair (u : Usb υ) (x : Xfer υ) {m r : I2cMsg}
    (h : (Transaction.pair m r).Accepted) :
    i2cXfer u true [m,r] x =
      if (submit u 0 x (.pair m r)).1 < 0 then submit u 0 x (.pair m r)
      else (2,(submit u 0 x (.pair m r)).2) := by
  have ht : turn [m,r][0] [m,r][0+1]? = .ok (.pair m r) := turn_pair h
  change xferLoop u [m,r] (1+1) 0 x = _
  rw [xferLoop,dif_pos (by simp),ht]
  rfl

theorem i2cXfer_sent (u : Usb υ) (x : Xfer υ) {t : Transaction} (h : t.Accepted) :
    (i2cXfer u true t.msgs x).2.sent = x.sent ++ [t.packet] := by
  have hs := submit_sent u 0 x t
  cases t with
  | write m =>
    rw [Transaction.msgs,i2cXfer_write u x h]
    split_ifs <;> exact hs
  | pair m r =>
    rw [Transaction.msgs,i2cXfer_pair u x h]
    split_ifs <;> exact hs

end I2cXfer
end AkbPcr20x
