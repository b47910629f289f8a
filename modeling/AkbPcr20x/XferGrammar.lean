import AkbPcr20x.I2cXfer

/-! The transfer grammar of the I2C adapter. A message list falls into items in one way,
and a call serves them in order: it sends the packet of each valid item until one is not
valid or its transfer fails. The USB side is a script, with the outcome of each transfer
and the bytes that it leaves in the receive buffer. -/
namespace AkbPcr20x
namespace XferGrammar

open Memory I2cXfer

/-- A part of a message list: a unit, or a read that is not behind a write at its address. -/
inductive Item
  | unit (t : Transaction)
  | stray (r : I2cMsg)

def Follows (m r : I2cMsg) : Prop := r.isRead = true ∧ m.addr = r.addr

inductive Grouping : List I2cMsg → List Item → Prop
  | nil : Grouping [] []
  | pair {m r ms its} (hm : m.isRead = false) (hr : Follows m r) (h : Grouping ms its) :
      Grouping (m::r::ms) (.unit (.pair m r)::its)
  | write {m ms its} (hm : m.isRead = false) (hn : ∀ r ∈ ms.head?, ¬ Follows m r)
      (h : Grouping ms its) : Grouping (m::ms) (.unit (.write m)::its)
  | stray {r ms its} (hr : r.isRead = true) (h : Grouping ms its) :
      Grouping (r::ms) (.stray r::its)

/-- The items of a list, by looking one message ahead. -/
def group : List I2cMsg → List Item
  | [] => []
  | [m] => if m.isRead then [.stray m] else [.unit (.write m)]
  | m::r::ms =>
    if m.isRead then .stray m::group (r::ms)
    else if r.isRead && decide (m.addr = r.addr) then .unit (.pair m r)::group ms
    else .unit (.write m)::group (r::ms)

theorem grouping_group (msgs : List I2cMsg) : Grouping msgs (group msgs) := by
  induction msgs using group.induct with
  | case1 => exact .nil
  | case2 m h =>
    rw [group,if_pos h]
    exact .stray h .nil
  | case3 m h =>
    rw [group,if_neg h]
    exact .write (by simpa using h) (by simp) .nil
  | case4 m r ms h ih =>
    rw [group,if_pos h]
    exact .stray h ih
  | case5 m r ms h hr ih =>
    rw [group,if_neg h,if_pos hr]
    exact .pair (by simpa using h) (by simpa [Follows] using hr) ih
  | case6 m r ms h hr ih =>
    rw [group,if_neg h,if_neg hr]
    refine .write (by simpa using h) ?_ ih
    intro r' hr'
    obtain rfl : r = r' := by simpa using hr'
    simpa [Follows] using hr

/-- A message list falls into items in one way only. -/
theorem grouping_iff {msgs : List I2cMsg} {its : List Item} :
    Grouping msgs its ↔ its = group msgs := by
  refine ⟨fun h => ?_,fun h => h ▸ grouping_group msgs⟩
  induction h with
  | nil => rfl
  | pair hm hr _ ih => simp [group,hm,hr.1,hr.2,ih]
  | @write m ms its hm hn _ ih =>
    cases ms with
    | nil => simp_all [group]
    | cons r ms =>
      have hf : (r.isRead && decide (m.addr = r.addr)) = false := by
        simpa [Follows] using hn r rfl
      simp [group,hm,hf,ih]
  | @stray r ms its hr _ ih => cases ms <;> simp_all [group]

def Item.msgs : Item → List I2cMsg
  | .unit t => t.msgs
  | .stray r => [r]

theorem Grouping.flatMap_msgs {msgs : List I2cMsg} {its : List Item} (h : Grouping msgs its) :
    its.flatMap Item.msgs = msgs := by
  induction h with
  | nil => rfl
  | _ => simp_all [Item.msgs,Transaction.msgs]

/-- The limits of the adapter. -/
def Item.Valid : Item → Prop
  | .unit t => t.Accepted
  | .stray _ => False

/-- A write that is not supported at all. -/
def Unsupported (m : I2cMsg) : Prop := m.len = 0 ∨ u8Max < m.len ∨ u8Max < m.addr.toNat ∨ m.isTen

instance (m : I2cMsg) : Decidable (Unsupported m) := inferInstanceAs (Decidable (_ ∨ _))

/-- The error for an item that is not valid. -/
def Item.error : Item → ℤ
  | .stray _ => -Errno.eopnotsupp
  | .unit (.write m) => if Unsupported m then -Errno.eopnotsupp else -Errno.einval
  | .unit (.pair m r) =>
    if Unsupported m ∨ r.len = 0 ∨ u8Max < r.len then -Errno.eopnotsupp else -Errno.einval

theorem Item.error_neg (it : Item) : it.error < 0 := by
  rcases it with (_ | _) | _
  · simp only [error]
    split_ifs <;> decide
  · simp only [error]
    split_ifs <;> decide
  · exact (by decide : -Errno.eopnotsupp < 0)

def Judged (it : Item) (r : Except ℤ Transaction) : Prop :=
  (∃ t, it = .unit t ∧ t.Accepted ∧ r = .ok t) ∨ ¬ it.Valid ∧ r = .error it.error

theorem turn_stray {m : I2cMsg} (next : Option I2cMsg) (hm : m.isRead = true) :
    Judged (.stray m) (turn m next) := by
  refine Or.inr ⟨id,?_⟩
  rw [turn]
  split_ifs <;> rfl

theorem turn_unsupported {m : I2cMsg} (next : Option I2cMsg) (h : Unsupported m) :
    turn m next = .error (-Errno.eopnotsupp) := by
  rw [turn]
  split_ifs with h₁ h₂ h₃
  · rfl
  · rfl
  · rfl
  · unfold Unsupported at h
    tauto

theorem turn_supported {m : I2cMsg} (next : Option I2cMsg) (h : ¬ Unsupported m)
    (hm : m.isRead = false) : turn m next =
      match next.filter (fun r => r.isRead && decide (m.addr = r.addr)) with
      | some r => turnPair m r
      | none => turnWrite m := by
  unfold Unsupported at h
  exact (if_neg (by tauto)).trans ((if_neg (by tauto)).trans (if_neg (by simp [hm])))

theorem not_unsupported {m : I2cMsg} (ha : m.addr.toNat ≤ u8Max) (ht : m.isTen = false)
    (h₁ : 1 ≤ m.len) (h₂ : m.len ≤ 61) : ¬ Unsupported m := by
  simp only [Unsupported,u8Max,ht,Bool.false_eq_true,or_false] at ha ⊢
  omega

theorem turn_write {m : I2cMsg} {next : Option I2cMsg} (hm : m.isRead = false)
    (hn : ∀ r ∈ next, ¬ Follows m r) : Judged (.unit (.write m)) (turn m next) := by
  by_cases hu : Unsupported m
  · refine Or.inr ⟨fun hv => ?_,?_⟩
    · obtain ⟨h₁,h₂,_,h₃,h₄⟩ := hv
      exact not_unsupported h₁ h₂ h₃ (by omega) hu
    · rw [turn_unsupported next hu,Item.error,if_pos hu]
  · have hf : next.filter (fun r => r.isRead && decide (m.addr = r.addr)) = none := by
      rw [Option.filter_eq_none_iff]
      intro r hr
      simpa [Follows] using hn r hr
    rw [turn_supported next hu hm,hf]
    simp only [turnWrite]
    split_ifs with hl
    · simp only [maxI2cBufferSize] at hl
      exact Or.inr ⟨fun hv => by have := hv.2.2.2.2; omega,by rw [Item.error,if_neg hu]⟩
    · simp only [Unsupported,not_or,u8Max,maxI2cBufferSize] at hu hl
      exact Or.inl ⟨_,rfl,⟨by simp only [u8Max]; omega,by simpa using hu.2.2.2,hm,by omega,by omega⟩,
        rfl⟩

theorem turn_pair {m r : I2cMsg} (hm : m.isRead = false) (hr : Follows m r) :
    Judged (.unit (.pair m r)) (turn m (some r)) := by
  by_cases hu : Unsupported m
  · refine Or.inr ⟨fun hv => ?_,?_⟩
    · obtain ⟨h₁,h₂,_,h₃,h₄,_⟩ := hv
      exact not_unsupported h₁ h₂ h₃ (by omega) hu
    · rw [turn_unsupported _ hu,Item.error,if_pos (Or.inl hu)]
  · have hf : (some r).filter (fun r => r.isRead && decide (m.addr = r.addr)) = some r := by
      simp [Option.filter,hr.1,hr.2]
    rw [turn_supported _ hu hm,hf]
    simp only [turnPair]
    split_ifs with h₁ h₂ h₃
    · refine Or.inr ⟨fun hv => ?_,by rw [Item.error,if_pos (Or.inr h₁)]⟩
      obtain ⟨_,_,_,_,_,_,_,h₄,h₅⟩ := hv
      simp only [u8Max] at h₁
      omega
    · refine Or.inr ⟨fun hv => ?_,by rw [Item.error,if_neg (by tauto)]⟩
      obtain ⟨_,_,_,_,_,_,_,h₄,h₅⟩ := hv
      simp only [maxI2cBufferSize] at h₂
      omega
    · refine Or.inr ⟨fun hv => ?_,by rw [Item.error,if_neg (by tauto)]⟩
      obtain ⟨_,_,_,h₄,h₅,_⟩ := hv
      simp only [maxI2cBufferSize] at h₃
      omega
    · simp only [Unsupported,not_or,u8Max,maxI2cBufferSize] at hu h₁ h₂ h₃
      exact Or.inl ⟨_,rfl,⟨by simp only [u8Max]; omega,by simpa using hu.2.2.2,hm,by omega,by omega,
        hr.1,hr.2,by omega,by omega⟩,rfl⟩

/-- The first item of a list is what the loop judges, and the rest of the items is behind
its messages. -/
theorem judged_head (m : I2cMsg) (ms : List I2cMsg) :
    ∃ it its, group (m::ms) = it::its ∧ Judged it (turn m ms.head?) ∧
      ∀ t, it = .unit t → its = group ((m::ms).drop t.msgs.length) := by
  have h := grouping_group (m::ms)
  generalize group (m::ms) = g at h ⊢
  cases h with
  | @pair m r ms its hm hr h =>
    refine ⟨_,its,rfl,turn_pair hm hr,fun t ht => ?_⟩
    cases ht
    exact grouping_iff.mp h
  | @write m ms its hm hn h =>
    refine ⟨_,its,rfl,turn_write hm hn,fun t ht => ?_⟩
    cases ht
    exact grouping_iff.mp h
  | stray hr h => exact ⟨_,_,rfl,turn_stray _ hr,nofun⟩

/-- Transfer `k` returns `outs k`; a reading one leaves `bytes k` in its buffer. -/
def script (outs : ℕ → ℤ) (bytes : ℕ → Mem Byte) : Usb ℕ where
  genericWrite _ k := (outs k,k+1)
  genericRw _ rlen k := (outs k,load (bytes k) 0 rlen,k+1)
  clearHalt k := k

/-- What the read messages of units are given, from transfer `k` and message `i` on. -/
def handed (bytes : ℕ → Mem Byte) : ℕ → ℕ → List Transaction → List (ℕ × List Byte)
  | _, _, [] => []
  | k, i, .write _::ts => handed bytes (k+1) (i+1) ts
  | k, i, .pair _ r::ts => (i+1,load (bytes k) 0 r.len)::handed bytes (k+1) (i+2) ts

/-- How a call ends in front of the items left, with its result and its last packet. -/
inductive Ends (outs : ℕ → ℤ) (num : ℕ) (k : ℕ) : List Item → ℤ → List (List Byte) → Prop
  | done : Ends outs num k [] num []
  | invalid {it its} (h : ¬ it.Valid) : Ends outs num k (it::its) it.error []
  | failed {t its} (h : t.Accepted) (ho : outs k < 0) :
      Ends outs num k (.unit t::its) (outs k) [t.packet]

/-- The items are served in order up to the point where the call ends. -/
structure Served (outs : ℕ → ℤ) (bytes : ℕ → Mem Byte) (num i : ℕ) (its : List Item)
    (x x' : Xfer ℕ) (ret : ℤ) (ts : List Transaction) (rest : List Item) (last : List (List Byte)) :
    Prop where
  items : its = ts.map .unit ++ rest
  accepted : ∀ t ∈ ts, t.Accepted
  succeeded : ∀ j < ts.length, 0 ≤ outs (x.usb + j)
  ends : Ends outs num (x.usb + ts.length) rest ret last
  sent : x'.sent = x.sent ++ ts.map Transaction.packet ++ last
  reads : x'.reads = x.reads ++ handed bytes x.usb i ts

variable {outs : ℕ → ℤ} {bytes : ℕ → Mem Byte} {x x' : Xfer ℕ}

theorem submit_script (outs : ℕ → ℤ) (bytes : ℕ → Mem Byte) (i : ℕ) (x : Xfer ℕ)
    (t : Transaction) :
    (submit (script outs bytes) i x t).1 = outs x.usb ∧
      (submit (script outs bytes) i x t).2.usb = x.usb + 1 ∧
      (submit (script outs bytes) i x t).2.reads =
        x.reads ++ if outs x.usb < 0 then [] else handed bytes x.usb i [t] := by
  cases t with
  | write m => simp [submit,script,handed]
  | pair m r =>
    simp only [submit,script,load_store_load]
    by_cases h : outs x.usb < 0
    · simp only [h,if_true,List.append_nil]
      exact ⟨trivial,ite_self _,trivial⟩
    · simp [h,handed]

theorem handed_cons (k i : ℕ) (t : Transaction) (ts : List Transaction) :
    handed bytes k i (t::ts) = handed bytes k i [t] ++ handed bytes (k+1) (i+t.msgs.length) ts := by
  cases t <;> rfl

theorem handed_mem {msgs tail : List I2cMsg} {k i : ℕ} {ts : List Transaction}
    (ha : ∀ t ∈ ts, t.Accepted) (hd : msgs.drop i = ts.flatMap Transaction.msgs ++ tail)
    {p : ℕ × List Byte} (hp : p ∈ handed bytes k i ts) :
    ∃ r, msgs[p.1]? = some r ∧ r.isRead = true ∧ p.2.length = r.len := by
  induction ts generalizing k i with
  | nil => exact absurd hp List.not_mem_nil
  | cons t ts ih =>
    have hts : msgs.drop (i + t.msgs.length) = ts.flatMap Transaction.msgs ++ tail := by
      rw [← List.drop_drop,hd,List.flatMap_cons,List.append_assoc,List.drop_left]
    have hi := fun hp => ih (fun t ht => ha t (by simp [ht])) (i:=i+t.msgs.length) (k:=k+1) hts hp
    cases t with
    | write m => exact hi hp
    | pair m r =>
      rcases List.mem_cons.mp hp with rfl | hp
      · obtain ⟨_,_,_,_,_,hr,_⟩ := ha (.pair m r) (by simp)
        refine ⟨r,?_,hr,load_length _ _ _⟩
        have hh : (msgs.drop i)[1]? = some r := by
          rw [hd]
          rfl
        rwa [List.getElem?_drop] at hh
      · exact hi hp

theorem Served.cons {num i : ℕ} {its : List Item} {ret : ℤ} {t : Transaction}
    {ts : List Transaction} {rest : List Item} {last : List (List Byte)} (ht : t.Accepted)
    (ho : ¬ outs x.usb < 0)
    (h : Served outs bytes num (i+t.msgs.length) its (submit (script outs bytes) i x t).2 x' ret ts
      rest last) :
    Served outs bytes num i (.unit t::its) x x' ret (t::ts) rest last := by
  obtain ⟨_,husb,hreads⟩ := submit_script outs bytes i x t
  refine ⟨by rw [h.items]; rfl,by simpa using ⟨ht,h.accepted⟩,fun j hj => ?_,?_,?_,?_⟩
  · cases j with
    | zero => simpa using ho
    | succ j =>
      have hh := h.succeeded j (by simpa using hj)
      rw [husb] at hh
      rwa [show x.usb + (j+1) = x.usb + 1 + j by omega]
  · have hh := h.ends
    rw [husb] at hh
    rwa [List.length_cons,show x.usb + (ts.length+1) = x.usb + 1 + ts.length by omega]
  · rw [h.sent,submit_sent]
    simp
  · rw [h.reads,hreads,husb,if_neg ho,handed_cons _ _ t ts,List.append_assoc]

/-- The loop from message `i` on serves the items of the messages that are left. -/
theorem xferLoop_served (outs : ℕ → ℤ) (bytes : ℕ → Mem Byte) (msgs : List I2cMsg)
    (fuel i : ℕ) (x : Xfer ℕ) (hf : msgs.length - i ≤ fuel) :
    ∃ ts rest last, Served outs bytes msgs.length i (group (msgs.drop i)) x
      (xferLoop (script outs bytes) msgs fuel i x).2
      (xferLoop (script outs bytes) msgs fuel i x).1 ts rest last := by
  have hend (i : ℕ) (x : Xfer ℕ) : Served outs bytes msgs.length i [] x x msgs.length [] [] [] :=
    ⟨rfl,by simp,by simp,.done,by simp,by simp [handed]⟩
  induction fuel generalizing i x with
  | zero =>
    have hd : msgs.drop i = [] := List.drop_of_length_le (by omega)
    rw [hd]
    exact ⟨[],[],[],hend i x⟩
  | succ fuel ih =>
    rw [xferLoop]
    by_cases h : i < msgs.length
    · rw [dif_pos h]
      have hd : msgs.drop i = msgs[i]::msgs.drop (i+1) := List.drop_eq_getElem_cons h
      obtain ⟨it,its,hg,hj,hits⟩ := judged_head msgs[i] (msgs.drop (i+1))
      rw [List.head?_drop] at hj
      rw [hd,hg]
      rcases hj with ⟨t,rfl,ht,he⟩ | ⟨hv,he⟩
      · rw [he]
        obtain ⟨hret,_,hreads⟩ := submit_script outs bytes i x t
        by_cases ho : outs x.usb < 0
        · have hr : (submit (script outs bytes) i x t).1 < 0 := by rwa [hret]
          simp only [if_pos hr]
          refine ⟨[],.unit t::its,[t.packet],rfl,by simp,by simp,?_,by simp,?_⟩
          · rw [hret]
            exact .failed ht ho
          · rw [hreads,if_pos ho]
            rfl
        · have hr : ¬ (submit (script outs bytes) i x t).1 < 0 := by rwa [hret]
          have hp := t.msgs_length_pos
          simp only [if_neg hr]
          obtain ⟨ts,rest,last,hs⟩ := ih (i+t.msgs.length) (submit (script outs bytes) i x t).2
            (by omega)
          rw [← List.drop_drop,hd,← hits t rfl] at hs
          exact ⟨t::ts,rest,last,hs.cons ht ho⟩
      · rw [he]
        exact ⟨[],it::its,[],rfl,by simp,by simp,.invalid hv,by simp,by simp [handed]⟩
    · rw [dif_neg h]
      have hd : msgs.drop i = [] := List.drop_of_length_le (by omega)
      rw [hd]
      exact ⟨[],[],[],hend i x⟩

/-- The cells of the two buffers that a transaction uses. -/
def Store.Below (n : ℕ) : Store → Prop
  | .put i _ => i < n
  | .copy i j => i < n ∧ j < n

theorem memcpy_below {i n : ℕ} (xs : List Byte) (h : i + xs.length ≤ n) :
    ∀ st ∈ memcpy i xs, Store.Below n st := by
  induction xs generalizing i with
  | nil => simp [memcpy]
  | cons x xs ih =>
    rw [List.length_cons] at h
    simp only [memcpy,List.mem_cons,forall_eq_or_imp]
    exact ⟨by simp only [Store.Below]; omega,ih (by omega)⟩

/-- Every store and the packet lie in `wbuf`, and the read in `rbuf`. -/
structure InBuffers (t : Transaction) : Prop where
  stores : ∀ st ∈ t.stores, Store.Below maxI2cBufferSize st
  wlen : t.wlen ≤ maxI2cBufferSize
  rlen : ∀ m r, t = .pair m r → r.len ≤ maxI2cBufferSize

theorem inBuffers {t : Transaction} (h : t.Accepted) : InBuffers t := by
  cases t with
  | write m =>
    obtain ⟨_,_,_,h₁,h₂⟩ := h
    have hm := memcpy_below (i:=3) (n:=maxI2cBufferSize) m.buf
      (by simp only [I2cMsg.len,maxI2cBufferSize] at h₂ ⊢; omega)
    refine ⟨fun st hst => ?_,?_,fun n r hn => by cases hn⟩
    · rcases List.mem_append.mp hst with hst | hst
      · simp only [List.mem_cons,List.not_mem_nil,or_false] at hst
        rcases hst with rfl | rfl | rfl <;> simp [Store.Below,maxI2cBufferSize]
      · exact hm st hst
    · simp only [Transaction.wlen,maxI2cBufferSize]
      omega
  | pair m r =>
    obtain ⟨_,_,_,h₁,h₂,_,_,h₃,h₄⟩ := h
    have hm := memcpy_below (i:=3) (n:=maxI2cBufferSize) m.buf
      (by simp only [I2cMsg.len,maxI2cBufferSize] at h₂ ⊢; omega)
    refine ⟨fun st hst => ?_,?_,?_⟩
    · rcases List.mem_append.mp hst with hst | hst
      · rcases List.mem_append.mp hst with hst | hst
        · simp only [List.mem_cons,List.not_mem_nil,or_false] at hst
          rcases hst with rfl | rfl | rfl <;> simp [Store.Below,maxI2cBufferSize]
        · exact hm st hst
      · simp only [List.mem_cons,List.not_mem_nil,or_false] at hst
        rcases hst with rfl | rfl | rfl <;> simp only [Store.Below,maxI2cBufferSize] <;> omega
    · simp only [Transaction.wlen,maxI2cBufferSize]
      omega
    · rintro m' r' he
      cases he
      exact h₄

theorem Served.ret_iff {num i : ℕ} {its : List Item} {ret : ℤ} {ts : List Transaction}
    {rest : List Item} {last : List (List Byte)}
    (h : Served outs bytes num i its x x' ret ts rest last) :
    ret = num ↔ (∀ it ∈ its, it.Valid) ∧ ∀ j < its.length, 0 ≤ outs (x.usb + j) := by
  have hi := h.items
  have hs := h.succeeded
  have he := h.ends
  cases he with
  | done =>
    rw [List.append_nil] at hi
    subst hi
    refine ⟨fun _ => ⟨fun it hit => ?_,fun j hj => hs j (by simpa using hj)⟩,fun _ => rfl⟩
    obtain ⟨t,ht,rfl⟩ := List.mem_map.mp hit
    exact h.accepted t ht
  | @invalid it its' hv =>
    subst hi
    have hn := it.error_neg
    refine ⟨fun hr => by omega,fun hall => absurd (hall.1 it ?_) hv⟩
    simp
  | failed ht ho =>
    subst hi
    refine ⟨fun hr => by omega,fun hall => ?_⟩
    have hh := hall.2 ts.length (by simp)
    omega

/-- The grammar of a call, once `i2c_mutex` is taken: the items of the list are served in
order, each unit with its one packet, up to the first one that is not valid or fails. -/
theorem i2cXfer_grammar (outs : ℕ → ℤ) (bytes : ℕ → Mem Byte) (msgs : List I2cMsg) (x : Xfer ℕ) :
    (∀ its, Grouping msgs its ↔ its = group msgs) ∧
    (∃ ts rest last, Served outs bytes msgs.length 0 (group msgs) x
      (i2cXfer (script outs bytes) true msgs x).2 (i2cXfer (script outs bytes) true msgs x).1
      ts rest last ∧ ∀ p ∈ handed bytes x.usb 0 ts,
        ∃ r, msgs[p.1]? = some r ∧ r.isRead = true ∧ p.2.length = r.len) ∧
    ((i2cXfer (script outs bytes) true msgs x).1 = msgs.length ↔
      (∀ it ∈ group msgs, it.Valid) ∧ ∀ j < (group msgs).length, 0 ≤ outs (x.usb + j)) ∧
    ∀ t : Transaction, t.Accepted → InBuffers t := by
  obtain ⟨ts,rest,last,h⟩ :=
    xferLoop_served outs bytes msgs msgs.length 0 x (by omega)
  have hd : msgs.drop 0 = ts.flatMap Transaction.msgs ++ rest.flatMap Item.msgs := by
    have hg := (grouping_group (msgs.drop 0)).flatMap_msgs
    rw [h.items,List.flatMap_append,List.flatMap_map] at hg
    exact hg.symm
  exact ⟨fun its => grouping_iff,⟨ts,rest,last,h,fun p => handed_mem h.accepted hd⟩,h.ret_iff,
    fun t => inBuffers⟩

end XferGrammar
end AkbPcr20x
