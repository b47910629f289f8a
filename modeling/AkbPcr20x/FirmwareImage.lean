import AkbPcr20x.Basic
import AkbPcr20x.Decoder

/-! The firmware image format: eight header bytes, then records with a 15-bit
big-endian length whose top bit marks the closing record, a big-endian address
and the payload. -/
namespace AkbPcr20x
namespace FirmwareImage

/-- A record cannot carry more payload than its length field can say. -/
structure Record where
  isEnd : Bool
  value : Word
  payload : List Byte
  length_lt : payload.length < 2^15

def Record.lengthField (r : Record) : Word :=
  BitVec.ofNat 16 (r.payload.length + if r.isEnd then 2^15 else 0)

def Record.header (r : Record) : List Byte :=
  [msb r.lengthField,lsb r.lengthField,msb r.value,lsb r.value]

def Record.encode (r : Record) : List Byte := r.header ++ r.payload

@[simp] theorem Record.encode_length (r : Record) :
    r.encode.length = 4 + r.payload.length := by
  simp only [Record.encode,Record.header,List.length_append,List.length_cons,List.length_nil]

theorem Record.lengthField_toNat (r : Record) :
    r.lengthField.toNat = r.payload.length + if r.isEnd then 2^15 else 0 := by
  have h := r.length_lt
  rw [Record.lengthField,BitVec.toNat_ofNat]
  split <;> omega

theorem Record.lengthField_size (r : Record) :
    (r.lengthField &&& 0x7fff).toNat = r.payload.length := by
  have h := r.length_lt
  rw [and_low15,r.lengthField_toNat]
  split <;> omega

theorem Record.lengthField_end (r : Record) :
    r.lengthField &&& 0x8000 ≠ 0 ↔ r.isEnd = true := by
  have h := r.length_lt
  rw [and_top_ne_zero,r.lengthField_toNat]
  cases r.isEnd
  · simpa using h
  · simp

theorem Record.ext' {r s : Record} (he : r.isEnd = s.isEnd) (hv : r.value = s.value)
    (hp : r.payload = s.payload) : r = s := by
  cases r
  cases s
  simp_all

inductive Stop
  | exhausted
  | truncated
  | ended (r : Record)

def recordAt (len value : Word) (p : List Byte) : Record where
  isEnd := decide (len &&& 0x8000 ≠ 0)
  value := value
  payload := p.take (len &&& 0x7fff).toNat
  length_lt := by
    have h := and_low15 len
    simp only [List.length_take]
    omega

def next : List Byte → Except Stop (Record × List Byte)
  | l₁::l₀::a₁::a₀::p =>
    let len := be16 l₁ l₀
    let r := recordAt len (be16 a₁ a₀) p
    if p.length < (len &&& 0x7fff).toNat then .error .truncated
    else if r.isEnd then .error (.ended r)
    else .ok (r,p.drop (len &&& 0x7fff).toNat)
  | _ => .error .exhausted

theorem next_of_short {p : List Byte} (h : p.length < 4) : next p = .error .exhausted := by
  rcases p with _ | ⟨a,_ | ⟨b,_ | ⟨c,_ | ⟨d,p⟩⟩⟩⟩ <;> first | rfl | (simp only [List.length_cons] at h; omega)

theorem next_header (r : Record) (p : List Byte) :
    next (r.header ++ p) =
      if p.length < r.payload.length then .error .truncated
      else
        let s := recordAt r.lengthField r.value p
        if s.isEnd then .error (.ended s) else .ok (s,p.drop r.payload.length) := by
  simp only [Record.header,List.cons_append,List.nil_append,next,be16_msb_lsb,r.lengthField_size]

theorem recordAt_append (r : Record) (p : List Byte) :
    recordAt r.lengthField r.value (r.payload ++ p) = r := by
  apply Record.ext'
  · rw [Bool.eq_iff_iff,recordAt,decide_eq_true_eq]
    exact r.lengthField_end
  · rfl
  · simp only [recordAt,r.lengthField_size,List.take_left]

theorem next_encode (r : Record) (p : List Byte) :
    next (r.encode ++ p) = if r.isEnd then .error (.ended r) else .ok (r,p) := by
  rw [Record.encode,List.append_assoc,next_header,if_neg (by simp)]
  simp only [recordAt_append,List.drop_left]

theorem next_cases (p : List Byte) :
    (p.length < 4 ∧ next p = .error .exhausted) ∨
    (4 ≤ p.length ∧ next p = .error .truncated) ∨
    ∃ r q, p = r.encode ++ q ∧
      next p = if r.isEnd then .error (.ended r) else .ok (r,q) := by
  rcases Nat.lt_or_ge p.length 4 with h | h
  · exact Or.inl ⟨h,next_of_short h⟩
  · rcases p with _ | ⟨l₁,_ | ⟨l₀,_ | ⟨a₁,_ | ⟨a₀,p⟩⟩⟩⟩
    all_goals first | (simp at h; done) | skip
    by_cases ht : p.length < (be16 l₁ l₀ &&& 0x7fff).toNat
    · exact Or.inr (Or.inl ⟨h,by simp only [next,if_pos ht]⟩)
    · let r := recordAt (be16 l₁ l₀) (be16 a₁ a₀) p
      have hl := and_low15 (be16 l₁ l₀)
      have hb := (be16 l₁ l₀).isLt
      have htop := and_top_ne_zero (be16 l₁ l₀)
      have hlen : r.payload.length = (be16 l₁ l₀ &&& 0x7fff).toNat := by
        simp only [r,recordAt,List.length_take]
        omega
      have hfield : r.lengthField = be16 l₁ l₀ := by
        apply BitVec.eq_of_toNat_eq
        rw [r.lengthField_toNat,hlen,hl]
        simp only [r,recordAt,htop,decide_eq_true_eq]
        split <;> omega
      refine Or.inr (Or.inr ⟨r,p.drop (be16 l₁ l₀ &&& 0x7fff).toNat,?_,?_⟩)
      · have hh : r.header = [l₁,l₀,a₁,a₀] := by
          rw [Record.header,hfield]
          simp only [r,recordAt,msb_be16,lsb_be16]
        rw [Record.encode,hh]
        simp only [r,recordAt,List.take_append_drop,List.cons_append,List.nil_append]
      · simp only [next,if_neg ht,r]

def records : Decoder Byte Record Stop where
  next := next
  shrinks p b q h := by
    rcases next_cases p with ⟨_,he⟩ | ⟨_,he⟩ | ⟨r,q',rfl,he⟩
    · rw [he] at h
      cases h
    · rw [he] at h
      cases h
    · rw [he] at h
      split at h
      · cases h
      · simp only [Except.ok.injEq,Prod.mk.injEq] at h
        obtain ⟨rfl,rfl⟩ := h
        simp

def size (rs : List Record) : ℕ := (rs.flatMap Record.encode).length

@[simp] theorem size_nil : size [] = 0 := rfl

@[simp] theorem size_cons (r : Record) (rs : List Record) :
    size (r::rs) = 4 + r.payload.length + size rs := by
  simp [size]

theorem decode_sound {p : List Byte} {rs : List Record} {stop : Stop}
    (h : records.decode p = (rs,stop)) :
    (∀ r ∈ rs, r.isEnd = false) ∧
      ∃ q, p = rs.flatMap Record.encode ++ q ∧ next q = .error stop := by
  induction p using Decoder.induction_on records generalizing rs with
  | hstop p s hs =>
    rw [Decoder.decode_error records hs,Prod.mk.injEq] at h
    obtain ⟨rfl,rfl⟩ := h
    exact ⟨by simp,p,rfl,hs⟩
  | hitem p b q hb ih =>
    rw [Decoder.decode_ok records hb] at h
    simp only [Prod.mk.injEq] at h
    obtain ⟨rfl,hst⟩ := h
    obtain ⟨hrs,q',hq',hn'⟩ := ih (Prod.ext rfl hst)
    rcases next_cases p with ⟨_,hn⟩ | ⟨_,hn⟩ | ⟨r,q₀,hp,hn⟩
    · cases hn.symm.trans hb
    · cases hn.symm.trans hb
    · have hh := hn.symm.trans hb
      split at hh
      · cases hh
      · rename_i hr
        simp only [Except.ok.injEq,Prod.mk.injEq] at hh
        obtain ⟨rfl,rfl⟩ := hh
        refine ⟨?_,q',?_,hn'⟩
        · intro x hx
          rcases List.mem_cons.mp hx with rfl | hx
          · simpa using hr
          · exact hrs x hx
        · rw [hp,List.flatMap_cons,List.append_assoc,← hq']

theorem next_ended {q : List Byte} {e : Record} (h : next q = .error (.ended e)) :
    e.isEnd = true ∧ ∃ q', q = e.encode ++ q' := by
  rcases next_cases q with ⟨_,hn⟩ | ⟨_,hn⟩ | ⟨r,q',rfl,hn⟩
  · cases hn.symm.trans h
  · cases hn.symm.trans h
  · have hh := hn.symm.trans h
    split at hh
    · rename_i hr
      cases hh
      exact ⟨hr,q',rfl⟩
    · cases hh

/-- Whatever follows the closing record is not looked at. -/
theorem decode_image {rs : List Record} (hrs : ∀ r ∈ rs, r.isEnd = false) {e : Record}
    (he : e.isEnd = true) (q : List Byte) :
    records.decode (rs.flatMap Record.encode ++ (e.encode ++ q)) = (rs,.ended e) := by
  have hn : records.next (e.encode ++ q) = .error (.ended e) :=
    (next_encode e q).trans (if_pos he)
  have hs : ∀ r ∈ rs, ∀ p, records.next (r.encode ++ p) = .ok (r,p) :=
    fun r hr p => (next_encode r p).trans (if_neg (by simp [hrs r hr]))
  rw [Decoder.decode_encode records hs,Decoder.decode_error records hn]
  simp

/-- The bytes of a record cut short: a header that is not whole counts as the end
of the image, a payload that is not whole does not. -/
theorem next_take (r : Record) (q : List Byte) {m : ℕ} (hm : m < 4 + r.payload.length) :
    next ((r.encode ++ q).take m) = .error (if m < 4 then .exhausted else .truncated) := by
  by_cases h : m < 4
  · rw [if_pos h]
    apply next_of_short
    rw [List.length_take]
    omega
  · have hh : r.header.length = 4 := rfl
    have ht : (r.encode ++ q).take m = r.header ++ r.payload.take (m-4) := by
      rw [List.take_append_of_le_length (by rw [r.encode_length]; omega),Record.encode,
        List.take_append,hh,List.take_of_length_le (by omega)]
    rw [if_neg h,ht,next_header,if_pos (by rw [List.length_take]; omega)]

/-- Walking over a cut record stream yields the records that are whole, and stops
as truncated exactly when the cut falls inside a payload. -/
theorem decode_take (rs : List Record) (hrs : ∀ r ∈ rs, r.isEnd = false) (e : Record)
    {m : ℕ} (hm : m < size (rs ++ [e])) :
    ∃ k, k ≤ rs.length ∧ size ((rs ++ [e]).take k) ≤ m ∧ m < size ((rs ++ [e]).take (k+1)) ∧
      records.decode (((rs ++ [e]).flatMap Record.encode).take m) =
        (rs.take k,if m < size ((rs ++ [e]).take k) + 4 then .exhausted else .truncated) := by
  induction rs generalizing m with
  | nil =>
    have hm' : m < 4 + e.payload.length := by simpa using hm
    have hn : records.next ((([] ++ [e]).flatMap Record.encode).take m) =
        .error (if m < 4 then .exhausted else .truncated) := next_take e [] hm'
    refine ⟨0,le_rfl,by simp,by simpa using hm',?_⟩
    rw [Decoder.decode_error records hn]
    simp
  | cons r rs ih =>
    have hr : r.isEnd = false := hrs r (by simp)
    by_cases hc : m < 4 + r.payload.length
    · have hn : records.next (((r::rs ++ [e]).flatMap Record.encode).take m) =
          .error (if m < 4 then .exhausted else .truncated) :=
        next_take r ((rs ++ [e]).flatMap Record.encode) hc
      refine ⟨0,by simp,by simp,by simpa using hc,?_⟩
      rw [Decoder.decode_error records hn]
      simp
    · have hs : size (r::rs ++ [e]) = 4 + r.payload.length + size (rs ++ [e]) := size_cons r _
      obtain ⟨k,hk,h₁,h₂,hd⟩ := ih (fun x hx => hrs x (by simp [hx]))
        (m:=m-(4 + r.payload.length)) (by omega)
      have ht : ((r::rs ++ [e]).flatMap Record.encode).take m =
          r.encode ++ ((rs ++ [e]).flatMap Record.encode).take (m-(4 + r.payload.length)) := by
        rw [List.cons_append,List.flatMap_cons,List.take_append,r.encode_length,
          List.take_of_length_le (by rw [r.encode_length]; omega)]
      have hn : records.next (((r::rs ++ [e]).flatMap Record.encode).take m) =
          .ok (r,((rs ++ [e]).flatMap Record.encode).take (m-(4 + r.payload.length))) := by
        rw [ht]
        exact (next_encode r _).trans (if_neg (by simp [hr]))
      refine ⟨k+1,by simpa using hk,?_,?_,?_⟩
      · simp only [List.cons_append,List.take_succ_cons,size_cons]
        omega
      · simp only [List.cons_append,List.take_succ_cons,size_cons]
        omega
      · rw [Decoder.decode_ok records hn,hd]
        simp only [List.cons_append,List.take_succ_cons,size_cons,Prod.mk.injEq,true_and]
        congr 1
        rw [eq_iff_iff]
        omega

theorem size_take_mono (rs : List Record) {i j : ℕ} (h : i ≤ j) :
    size (rs.take i) ≤ size (rs.take j) := by
  induction rs generalizing i j with
  | nil => simp
  | cons r rs ih =>
    cases i with
    | zero => simp
    | succ i =>
      cases j with
      | zero => omega
      | succ j =>
        have hh := ih (Nat.le_of_succ_le_succ h)
        simpa using hh

/-- A well-formed image: open records between the header and one closing record. -/
structure Image where
  header : List Byte
  records : List Record
  last : Record
  header_length : header.length = 8
  records_open : ∀ r ∈ records, r.isEnd = false
  last_end : last.isEnd = true

def Image.all (im : Image) : List Record := im.records ++ [im.last]

def Image.bytes (im : Image) : List Byte := im.header ++ im.all.flatMap Record.encode

theorem Image.bytes_length (im : Image) : im.bytes.length = 8 + size im.all := by
  rw [Image.bytes,List.length_append,im.header_length,size]

end FirmwareImage
end AkbPcr20x
