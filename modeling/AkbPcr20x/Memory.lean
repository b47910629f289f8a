import Mathlib.Tactic
import Mathlib.Logic.Function.Basic

/-! Linear memory as a total function from offsets, with block loads and
stores. A buffer of `n` cells is the part of such a memory below `n`, so a
store that leaves the buffer is visible as a change at or above `n`. -/
namespace AkbPcr20x
namespace Memory

abbrev Mem (α : Type) := ℕ → α

variable {α : Type}

def load (m : Mem α) (i : ℕ) : ℕ → List α
  | 0 => []
  | n+1 => m i :: load m (i+1) n

def store (m : Mem α) (i : ℕ) : List α → Mem α
  | [] => m
  | x::xs => store (Function.update m i x) (i+1) xs

@[simp] theorem load_zero (m : Mem α) (i : ℕ) : load m i 0 = [] := rfl

theorem load_succ (m : Mem α) (i n : ℕ) : load m i (n+1) = m i :: load m (i+1) n := rfl

@[simp] theorem store_nil (m : Mem α) (i : ℕ) : store m i [] = m := rfl

theorem store_cons (m : Mem α) (i : ℕ) (x : α) (xs : List α) :
    store m i (x::xs) = store (Function.update m i x) (i+1) xs := rfl

@[simp] theorem load_length (m : Mem α) (i n : ℕ) : (load m i n).length = n := by
  induction n generalizing i with
  | zero => rfl
  | succ n ih => simp [load,ih]

theorem load_add (m : Mem α) (i j k : ℕ) : load m i (j+k) = load m i j ++ load m (i+j) k := by
  induction j generalizing i with
  | zero => simp
  | succ j ih =>
    rw [Nat.succ_add,load_succ,load_succ,ih,List.cons_append]
    congr 3
    omega

theorem load_drop (m : Mem α) (i : ℕ) {k n : ℕ} (hk : k ≤ n) :
    (load m i n).drop k = load m (i+k) (n-k) := by
  conv_lhs => rw [← Nat.add_sub_cancel' hk,load_add]
  simp

theorem load_take (m : Mem α) (i : ℕ) {k n : ℕ} (hk : k ≤ n) :
    (load m i n).take k = load m i k := by
  conv_lhs => rw [← Nat.add_sub_cancel' hk,load_add]
  simp

theorem store_of_lt (m : Mem α) (i : ℕ) (xs : List α) {j : ℕ} (hj : j < i) :
    store m i xs j = m j := by
  induction xs generalizing m i with
  | nil => rfl
  | cons x xs ih =>
    rw [store_cons,ih _ _ (by omega),Function.update_of_ne (by omega)]

theorem store_of_ge (m : Mem α) (i : ℕ) (xs : List α) {j : ℕ} (hj : i + xs.length ≤ j) :
    store m i xs j = m j := by
  induction xs generalizing m i with
  | nil => rfl
  | cons x xs ih =>
    rw [List.length_cons] at hj
    rw [store_cons,ih _ _ (by omega),Function.update_of_ne (by omega)]

@[simp] theorem load_store (m : Mem α) (i : ℕ) (xs : List α) :
    load (store m i xs) i xs.length = xs := by
  induction xs generalizing m i with
  | nil => rfl
  | cons x xs ih =>
    rw [List.length_cons,load_succ,store_cons,ih,store_of_lt _ _ _ (Nat.lt_succ_self i),
      Function.update_self]

theorem load_store_load (m m' : Mem α) (i j n : ℕ) :
    load (store m i (load m' j n)) i n = load m' j n := by
  have h := load_store m i (load m' j n)
  rwa [load_length] at h

theorem store_load (m m' : Mem α) (i n : ℕ) {j : ℕ} (hi : i ≤ j) (hj : j < i + n) :
    store m i (load m' i n) j = m' j := by
  induction n generalizing m i with
  | zero => omega
  | succ n ih =>
    rw [load_succ,store_cons]
    by_cases he : j = i
    · rw [he,store_of_lt _ _ _ (Nat.lt_succ_self i),Function.update_self]
    · exact ih _ _ (by omega) (by omega)

theorem store_append (m : Mem α) (i : ℕ) (xs ys : List α) :
    store m i (xs++ys) = store (store m i xs) (i+xs.length) ys := by
  induction xs generalizing m i with
  | nil => rfl
  | cons x xs ih =>
    rw [List.cons_append,store_cons,ih,store_cons,List.length_cons]
    congr 1
    omega

end Memory
end AkbPcr20x
