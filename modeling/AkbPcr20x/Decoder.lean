import Mathlib.Tactic

/-! Decoders that take one item at a time off the front of a list. A stop value
says why decoding ended; it may carry data, such as a closing item. -/
namespace AkbPcr20x

/-- One decoding step, with the proof that an item always consumes input. -/
structure Decoder (α β ε : Type) where
  next : List α → Except ε (β × List α)
  shrinks : ∀ p b q, next p = .ok (b,q) → q.length < p.length

namespace Decoder

variable {α β ε : Type}

def decode (d : Decoder α β ε) (p : List α) : List β × ε :=
  match _h : d.next p with
  | .error e => ([],e)
  | .ok (b,q) =>
    let r := d.decode q
    (b::r.1,r.2)
termination_by p.length
decreasing_by exact d.shrinks p b q _h

variable (d : Decoder α β ε)

theorem decode_error {p : List α} {e : ε} (h : d.next p = .error e) : d.decode p = ([],e) := by
  rw [decode]
  split
  · rename_i e' he
    rw [h,Except.error.injEq] at he
    rw [he]
  · rename_i b q hb
    rw [h] at hb
    cases hb

theorem decode_ok {p q : List α} {b : β} (h : d.next p = .ok (b,q)) :
    d.decode p = (b::(d.decode q).1,(d.decode q).2) := by
  rw [decode]
  split
  · rename_i e he
    rw [h] at he
    cases he
  · rename_i b' q' hb
    rw [h,Except.ok.injEq,Prod.mk.injEq] at hb
    rw [hb.1,hb.2]

theorem induction_on {P : List α → Prop}
    (hstop : ∀ p e, d.next p = .error e → P p)
    (hitem : ∀ p b q, d.next p = .ok (b,q) → P q → P p) (p : List α) : P p := by
  induction hn : p.length using Nat.strong_induction_on generalizing p with
  | _ n ih =>
    cases h : d.next p with
    | error e => exact hstop p e h
    | ok r =>
      obtain ⟨b,q⟩ := r
      subst hn
      exact hitem p b q h (ih q.length (d.shrinks p b q h) q rfl)

/-- Items written by an encoder that one step inverts are decoded in order,
whatever follows them. -/
theorem decode_encode {enc : β → List α} {bs : List β}
    (h : ∀ b ∈ bs, ∀ r, d.next (enc b ++ r) = .ok (b,r)) (r : List α) :
    d.decode (bs.flatMap enc ++ r) = (bs ++ (d.decode r).1,(d.decode r).2) := by
  induction bs with
  | nil => rfl
  | cons b bs ih =>
    have hb := h b (by simp) (bs.flatMap enc ++ r)
    rw [List.flatMap_cons,List.append_assoc,decode_ok d hb,
      ih (fun b' hb' => h b' (by simp [hb']))]
    rfl

/-- A decoder that only looks at what it takes, and reports `done` only on the empty
input: behind an input decoded to its end, decoding goes on with the rest. -/
theorem decode_append {done : ε}
    (hitem : ∀ p b r, d.next p = .ok (b,r) → ∀ q, d.next (p ++ q) = .ok (b,r ++ q))
    (hdone : ∀ p, d.next p = .error done → p = []) {p : List α} (h : (d.decode p).2 = done)
    (q : List α) : d.decode (p ++ q) = ((d.decode p).1 ++ (d.decode q).1,(d.decode q).2) := by
  induction p using d.induction_on with
  | hstop p e he =>
    rw [d.decode_error he] at h ⊢
    subst h
    rw [hdone p he]
    rfl
  | hitem p b r hb ih =>
    rw [d.decode_ok hb] at h ⊢
    rw [d.decode_ok (hitem p b r hb q),ih h]
    rfl

end Decoder
end AkbPcr20x
