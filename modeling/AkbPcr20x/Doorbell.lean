import AkbPcr20x.Transition

/-! A flag that an interrupt raises and a loop tests, clears and then serves. Only the last
request is at hand when it is served. A request that is not served was overrun by a later one,
and one that arrives between the test and its service may be served once more. -/
namespace AkbPcr20x
namespace Doorbell

open Transition

/-- Where the loop stands: away from the flag, or behind its test, or behind the clear. -/
inductive Phase
  | away
  | clear
  | serve
  deriving DecidableEq

/-- Requests are numbered from one on. -/
structure Bell where
  phase : Phase
  flag : Bool
  raised : ℕ
  served : List ℕ

inductive Act
  | ring
  | test
  | clear
  | serve

def Bell.idle : Bell := ⟨.away,false,0,[]⟩

def step (s : Bell) : Act → Option Bell
  | .ring => some {s with flag := true, raised := s.raised + 1}
  | .test =>
    if s.phase = .away then some (if s.flag then {s with phase := .clear} else s) else none
  | .clear => if s.phase = .clear then some {s with phase := .serve, flag := false} else none
  | .serve =>
    if s.phase = .serve then
      some {s with phase := .away, served := s.served ++ [s.raised]}
    else none

def Bell.times (s : Bell) : ℕ := s.served.count s.raised

structure Bell.Inv (s : Bell) : Prop where
  sorted : s.served.Pairwise (· ≤ ·)
  bound : ∀ n ∈ s.served, 0 < n ∧ n ≤ s.raised
  twice : ∀ n, s.served.count n ≤ 2
  away : s.phase = .away → if s.flag then s.times ≤ 1 else s.raised = 0 ∨ 0 < s.times
  clear : s.phase = .clear → s.flag = true ∧ s.times ≤ 1
  serve : s.phase = .serve → if s.flag then s.times = 0 else s.times ≤ 1
  rung : s.flag = true ∨ s.phase = .serve → 0 < s.raised

theorem Bell.inv_idle : Bell.idle.Inv := by
  constructor <;> simp [Bell.idle]

variable {s t : Bell}

theorem Bell.Inv.count_succ (h : s.Inv) : s.served.count (s.raised + 1) = 0 := by
  refine List.count_eq_zero.mpr fun hm => ?_
  have := (h.bound _ hm).2
  omega

theorem Bell.Inv.ring (h : s.Inv) : Bell.Inv {s with flag := true, raised := s.raised + 1} where
  sorted := h.sorted
  bound n hn := ⟨(h.bound n hn).1,Nat.le_succ_of_le (h.bound n hn).2⟩
  twice := h.twice
  away _ := by simp [Bell.times,h.count_succ]
  clear _ := by simp [Bell.times,h.count_succ]
  serve _ := by simp [Bell.times,h.count_succ]
  rung _ := Nat.succ_pos _

theorem Bell.Inv.test (h : s.Inv) (hp : s.phase = .away) (hf : s.flag = true) :
    Bell.Inv {s with phase := .clear} where
  sorted := h.sorted
  bound := h.bound
  twice := h.twice
  away hc := by cases hc
  clear _ := by
    have ha := h.away hp
    rw [hf] at ha
    exact ⟨hf,ha⟩
  serve hc := by cases hc
  rung _ := h.rung (Or.inl hf)

theorem Bell.Inv.cleared (h : s.Inv) (hp : s.phase = .clear) :
    Bell.Inv {s with phase := .serve, flag := false} where
  sorted := h.sorted
  bound := h.bound
  twice := h.twice
  away hc := by cases hc
  clear hc := by cases hc
  serve _ := (h.clear hp).2
  rung _ := h.rung (Or.inl (h.clear hp).1)

theorem Bell.Inv.served (h : s.Inv) (hp : s.phase = .serve) :
    Bell.Inv {s with phase := .away, served := s.served ++ [s.raised]} := by
  have hr : 0 < s.raised := h.rung (Or.inr hp)
  have hs := h.serve hp
  have ht : (s.served ++ [s.raised]).count s.raised = s.times + 1 := by
    rw [List.count_append,List.count_singleton_self,Bell.times]
  refine
    { sorted := ?_, bound := ?_, twice := ?_, away := ?_
      clear := fun hc => by cases hc
      serve := fun hc => by cases hc
      rung := fun _ => hr }
  · refine List.pairwise_append.mpr ⟨h.sorted,List.pairwise_singleton _ _,fun n hn m hm => ?_⟩
    rw [List.mem_singleton.mp hm]
    exact (h.bound n hn).2
  · intro n hn
    rcases List.mem_append.mp hn with hn | hn
    · exact h.bound n hn
    · rw [List.mem_singleton.mp hn]
      exact ⟨hr,le_rfl⟩
  · intro n
    by_cases hn : n = s.raised
    · rw [hn,ht]
      split_ifs at hs <;> omega
    · rw [List.count_append,List.count_singleton,if_neg (by simpa using Ne.symm hn)]
      exact h.twice n
  · intro _
    change if s.flag = true then (s.served ++ [s.raised]).count s.raised ≤ 1
      else s.raised = 0 ∨ 0 < (s.served ++ [s.raised]).count s.raised
    rw [ht]
    split_ifs at hs ⊢ <;> omega

theorem inv_step (s : Bell) (a : Act) (t : Bell) (h : s.Inv) (ht : step s a = some t) : t.Inv := by
  cases a with
  | ring =>
    obtain rfl := Option.some.inj ht
    exact h.ring
  | test =>
    simp only [step] at ht
    split_ifs at ht with hp hf
    · obtain rfl := Option.some.inj ht
      exact h.test hp hf
    · obtain rfl := Option.some.inj ht
      exact h
  | clear =>
    simp only [step] at ht
    split_ifs at ht with hp
    obtain rfl := Option.some.inj ht
    exact h.cleared hp
  | serve =>
    simp only [step] at ht
    split_ifs at ht with hp
    obtain rfl := Option.some.inj ht
    exact h.served hp

/-- Away from a lowered flag, the last request has been served. -/
theorem Bell.Inv.answered (h : s.Inv) (hp : s.phase = .away) (hf : s.flag = false)
    (hr : 0 < s.raised) : s.raised ∈ s.served := by
  have ha := h.away hp
  rw [hf] at ha
  exact List.count_pos_iff.mp (ha.resolve_left hr.ne')

theorem head_of_sorted {n : ℕ} {l : List ℕ} (h : (n::l).Pairwise (· ≤ ·)) (hm : n ∈ l) :
    ∃ l', l = n::l' := by
  cases l with
  | nil => cases hm
  | cons m l' =>
    rw [List.pairwise_cons,List.pairwise_cons] at h
    have hle : n ≤ m := h.1 m List.mem_cons_self
    have hge : m ≤ n := by
      rcases List.mem_cons.mp hm with hm | hm
      · exact hm.ge
      · exact h.2.1 n hm
    exact ⟨l',by rw [le_antisymm hle hge]⟩

theorem foldl_dedup {γ : Type} {f : γ → ℕ → γ} (hf : ∀ c n, f (f c n) n = f c n) {l : List ℕ}
    (h : l.Pairwise (· ≤ ·)) (c : γ) : l.foldl f c = l.dedup.foldl f c := by
  induction l generalizing c with
  | nil => rfl
  | cons n l ih =>
    by_cases hm : n ∈ l
    · obtain ⟨l',rfl⟩ := head_of_sorted h hm
      rw [List.dedup_cons_of_mem hm,← ih h.of_cons,List.foldl_cons,List.foldl_cons,List.foldl_cons,
        hf]
    · rw [List.dedup_cons_of_notMem hm,List.foldl_cons,List.foldl_cons,ih h.of_cons]

theorem dedup_strict {l : List ℕ} (h : l.Pairwise (· ≤ ·)) : l.dedup.Pairwise (· < ·) := by
  have hd := h.sublist l.dedup_sublist
  exact (hd.and l.nodup_dedup).imp fun h => lt_of_le_of_ne h.1 h.2

end Doorbell
end AkbPcr20x
