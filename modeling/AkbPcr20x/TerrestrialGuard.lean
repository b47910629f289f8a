import AkbPcr20x.TerrestrialChip

/-! The synthesizer of the ISDB-T tuner at any moment of a run. A channel change switches it off
first and on last, so that it never runs on a frequency that is half written, and the frequency
that the driver reports is the one that it runs on. -/
namespace AkbPcr20x
namespace Mxl5007t

open Issue

variable (bus : ℕ → ℤ)

/-- The registers behind writes from transfer `k` on. A write that fails leaves them alone. -/
def chip : ℕ → List RegPair → Regs → Regs
  | _, [], m => m
  | k, p::ws, m => chip (k+1) ws (if sentOk bus k then Function.update m p.reg p.val else m)

/-- The registers 0x0c, 0x0d, 0x0e and 0x80 are those of the parameters. -/
def Programmed (c : Props) (m : Regs) : Prop :=
  ∃ mode bw, c.select = some (mode,bw) ∧ m 0x0c = bw.mode ∧
    m 0x0d = (digRfFreq c.frequency).setWidth 8 ∧ m 0x0e = (digRfFreq c.frequency >>> 8).setWidth 8 ∧
    m 0x80 = if 333000000 ≤ c.frequency then 0x41 else 0x01

def guarded : List Byte := [0x0c,0x0d,0x0e,0x80]

theorem Programmed.congr {c : Props} {m m' : Regs} (h : Programmed c m)
    (he : ∀ r ∈ guarded, m' r = m r) : Programmed c m' := by
  obtain ⟨mode,bw,hs,hc,hd,he',h8⟩ := h
  simp only [guarded,List.forall_mem_cons] at he
  obtain ⟨ec,ed,ee,e8,_⟩ := he
  exact ⟨mode,bw,hs,ec.trans hc,ed.trans hd,ee.trans he',e8.trans h8⟩

variable {cfg : Config} {c : Props} {mode : Mode} {bw : BwMhz}

/-- The parameters of the last `mxl5007t_set_params` that returned 0. -/
def lastProps (h : List (Call × ℤ)) : Option Props := (h.filterMap tuned).getLast?

/-- A synthesizer that is on runs on the parameters of the last call that returned 0. -/
def Guarded (h : List (Call × ℤ)) (m : Regs) : Prop :=
  m 0x0f = 1 → ∃ c, lastProps h = some c ∧ Programmed c m

theorem Guarded.congr {h : List (Call × ℤ)} {m m' : Regs} (hg : Guarded h m)
    (he : m' 0x0f = 1 → ∀ r ∈ (0x0f::guarded), m' r = m r) : Guarded h m' := by
  intro h1
  have hall := he h1
  rw [List.forall_mem_cons] at hall
  obtain ⟨c,hc,hp⟩ := hg (hall.1.symm.trans h1)
  exact ⟨c,hc,hp.congr hall.2⟩

theorem lastProps_other (h : List (Call × ℤ)) {e : Call × ℤ} (he : tuned e = none) :
    lastProps (h ++ [e]) = lastProps h := by
  rw [lastProps,List.filterMap_append,List.filterMap_cons,he,List.filterMap_nil,List.append_nil,
    lastProps]

theorem Guarded.other {h : List (Call × ℤ)} {m : Regs} (hg : Guarded h m) {e : Call × ℤ}
    (he : tuned e = none) : Guarded (h ++ [e]) m := by
  rwa [Guarded,lastProps_other h he]

theorem Programmed.frequency {c : Props} {m : Regs} (h : Programmed c m)
    (hf : c.frequency.toNat ≤ 1023992187) :
    (Settings.of m).frequency = 15625 * ((c.frequency.toNat + 7812) / 15625) := by
  obtain ⟨mode,bw,_,_,hd,he,_⟩ := h
  have hdig := digRfFreq_toNat c.frequency
  have hw := word_toNat (w:=digRfFreq c.frequency) (by omega)
  rw [Settings.of,hd,he,hw,hdig]

end Mxl5007t
end AkbPcr20x
