import AkbPcr20x.Basic
import AkbPcr20x.Transition

/-! The I2C clients of a device over its plug and unplug cycles. A client is numbered
when `dvb_module_probe` hands it out and is owed until `dvb_module_release` takes it
back; the kernel keeps the reference in between. -/
namespace AkbPcr20x
namespace Clients

open Transition

structure Clt where
  demodS : Option ℕ
  tunerS : Option ℕ
  demodT : Option ℕ
  tunerT : Option ℕ
  deriving DecidableEq

def Clt.zero : Clt := ⟨none,none,none,none⟩

def Clt.recorded (c : Clt) : List ℕ := [c.demodS,c.tunerS,c.demodT,c.tunerT].filterMap id

/-- The probe of a demodulator: whether there is a client, and whether it left a
frontend in its config. -/
structure Demod where
  client : Bool
  fe : Bool

/-- Everything an attach meets: the result of `akb_pcr20x_transfer_init` and its probes. -/
structure Outcome where
  transferInit : ℤ
  demodS : Demod
  tunerS : Bool
  demodT : Demod
  tunerT : Bool

/-- `next` counts the clients handed out so far. A fault is a null dereference; there is no
further step behind one. -/
structure Sys where
  next : ℕ
  released : List ℕ
  clt : Clt
  attached : Bool
  fault : Bool

def probe (client : Bool) (s : Sys) : Option ℕ × Sys :=
  if client then (some s.next,{s with next := s.next + 1}) else (none,s)

def attachS (o : Outcome) (s : Sys) : ℤ × Sys :=
  let d := probe o.demodS.client s
  if d.1 = none ∨ o.demodS.fe = false then
    (-Errno.enodev,{d.2 with clt := {d.2.clt with demodS := none}})
  else
    let s := {d.2 with clt := {d.2.clt with demodS := d.1}}
    let t := probe o.tunerS s
    if t.1 = none then (-Errno.enodev,{t.2 with clt := {t.2.clt with demodS := none}})
    else (0,{t.2 with clt := {t.2.clt with tunerS := t.1}})

def attachT (o : Outcome) (s : Sys) : ℤ × Sys :=
  let d := probe o.demodT.client s
  if d.1 = none then (-Errno.enodev,{d.2 with clt := {d.2.clt with demodT := none}})
  else
    let s := {d.2 with clt := {d.2.clt with demodT := d.1}}
    -- `adap->fe[1]->ops`; unlike the ISDB-S part nothing has tested the frontend
    if o.demodT.fe = false then (0,{s with fault := true})
    else
      let t := probe o.tunerT s
      if t.1 = none then (-Errno.enodev,{t.2 with clt := {t.2.clt with demodT := none}})
      else (0,{t.2 with clt := {t.2.clt with tunerT := t.1}})

def attach (o : Outcome) (s : Sys) : ℤ × Sys :=
  if o.transferInit < 0 then (o.transferInit,s)
  else
    let r := attachS o s
    if r.1 < 0 then r else attachT o r.2

def release (clt : Option ℕ) (s : Sys) : Sys :=
  match clt with
  | some i => {s with released := s.released ++ [i]}
  | none => s

def detach (s : Sys) : Sys :=
  let s := release s.clt.demodS s
  let s := {s with clt := {s.clt with demodS := none}}
  let s := release s.clt.demodT s
  {s with clt := {s.clt with demodT := none}}

inductive Action
  | attach (o : Outcome)
  | detach

/-- Every plug gets zeroed private data. -/
def step (s : Sys) : Action → Option Sys
  | .attach o =>
    if s.attached ∨ s.fault then none
    else some {(attach o {s with clt := .zero}).2 with attached := true}
  | .detach => if s.attached ∧ s.fault = false then some {detach s with attached := false} else none

def Sys.begin : Sys := ⟨0,[],.zero,false,false⟩

/-- No attach got stuck, behind an attach the clients still owed are the recorded ones, and
behind a detach every client was released exactly once. -/
def Balanced (s : Sys) : Prop :=
  s.fault = false ∧
    if s.attached then ∀ i, (i < s.next ∧ i ∉ s.released) ↔ i ∈ s.clt.recorded
    else ∀ i < s.next, s.released.count i = 1

/-- The attach comes back with every client that it obtained recorded. -/
def Recorded (o : Outcome) : Prop :=
  o.transferInit < 0 ∨ o.demodS.client = false ∨
    o.demodS.fe = true ∧ o.tunerS = true ∧
      (o.demodT.client = false ∨ o.demodT.fe = true ∧ o.tunerT = true)

def Kept (s : Sys) : Action → Prop
  | .attach o => s.attached = false → Recorded o
  | .detach => s.attached = true → s.clt.tunerS = none ∧ s.clt.tunerT = none

def Settled (base : ℕ) (s : Sys) : Prop := ∀ i, s.released.count i = if i < base then 1 else 0

/-- The clients of the attach under way, by how far it came. -/
inductive Held (base : ℕ) : ℕ → Clt → Prop
  | nothing : Held base base .zero
  | s : Held base (base+2) ⟨some base,some (base+1),none,none⟩
  | both : Held base (base+4) ⟨some base,some (base+1),some (base+2),some (base+3)⟩

structure Inv (s : Sys) : Prop where
  fault : s.fault = false
  clients : if s.attached then ∃ base, Settled base s ∧ Held base s.next s.clt
    else Settled s.next s

theorem Settled.mem {base : ℕ} {s : Sys} (h : Settled base s) (i : ℕ) :
    i ∈ s.released ↔ i < base := by
  have hi := h i
  rw [← List.count_pos_iff,hi]
  split_ifs with hb <;> simp [hb]

theorem Held.recorded {base next : ℕ} {c : Clt} (h : Held base next c) (i : ℕ) :
    i ∈ c.recorded ↔ base ≤ i ∧ i < next := by
  cases h with
  | nothing =>
    simp only [Clt.recorded,Clt.zero,List.filterMap_cons,List.filterMap_nil,id,List.not_mem_nil,
      false_iff]
    omega
  | s =>
    simp only [Clt.recorded,List.filterMap_cons,List.filterMap_nil,id,List.mem_cons,
      List.not_mem_nil,or_false]
    omega
  | both =>
    simp only [Clt.recorded,List.filterMap_cons,List.filterMap_nil,id,List.mem_cons,
      List.not_mem_nil,or_false]
    omega

theorem Inv.held {s : Sys} (h : Inv s) (ha : s.attached = true) :
    ∃ base, Settled base s ∧ Held base s.next s.clt := by
  have hc := h.clients
  rwa [if_pos ha] at hc

theorem Inv.settled {s : Sys} (h : Inv s) (ha : s.attached = false) : Settled s.next s := by
  have hc := h.clients
  rwa [if_neg (Bool.not_eq_true _ ▸ ha)] at hc

theorem Inv.balanced {s : Sys} (h : Inv s) : Balanced s := by
  refine ⟨h.fault,?_⟩
  cases ha : s.attached with
  | true =>
    obtain ⟨base,hs,hh⟩ := h.held ha
    intro i
    rw [hs.mem,hh.recorded]
    omega
  | false =>
    intro i hi
    rw [h.settled ha i,if_pos hi]

theorem attachS_cases (o : Outcome) (s : Sys) (hc : s.clt = .zero) :
    (o.demodS.client = false ∧ attachS o s = (-Errno.enodev,s)) ∨
    (o.demodS.client = true ∧ (o.demodS.fe = false ∨ o.tunerS = false) ∧
      attachS o s = (-Errno.enodev,{s with next := s.next+1})) ∨
    (o.demodS.client = true ∧ o.demodS.fe = true ∧ o.tunerS = true ∧
      attachS o s =
        (0,⟨s.next+2,s.released,⟨some s.next,some (s.next+1),none,none⟩,s.attached,s.fault⟩)) := by
  obtain ⟨next,released,clt,attached,fault⟩ := s
  obtain rfl : clt = .zero := hc
  cases hs : o.demodS.client with
  | false =>
    left
    exact ⟨rfl,by simp [attachS,probe,hs,Clt.zero]⟩
  | true =>
    right
    cases hf : o.demodS.fe with
    | false =>
      left
      exact ⟨rfl,Or.inl rfl,by simp [attachS,probe,hs,hf,Clt.zero]⟩
    | true =>
      cases ht : o.tunerS with
      | false =>
        left
        exact ⟨rfl,Or.inr rfl,by simp [attachS,probe,hs,hf,ht,Clt.zero]⟩
      | true =>
        right
        exact ⟨rfl,rfl,rfl,by simp [attachS,probe,hs,hf,ht,Clt.zero]⟩

theorem attachT_cases (o : Outcome) (base : ℕ) (released : List ℕ) (attached fault : Bool) :
    let s : Sys := ⟨base+2,released,⟨some base,some (base+1),none,none⟩,attached,fault⟩
    (o.demodT.client = false ∧ attachT o s = (-Errno.enodev,s)) ∨
    (o.demodT.client = true ∧ o.demodT.fe = false ∧
      attachT o s = (0,⟨base+3,released,⟨some base,some (base+1),some (base+2),none⟩,attached,true⟩)) ∨
    (o.demodT.client = true ∧ o.demodT.fe = true ∧ o.tunerT = false ∧
      attachT o s = (-Errno.enodev,{s with next := base+3})) ∨
    (o.demodT.client = true ∧ o.demodT.fe = true ∧ o.tunerT = true ∧
      attachT o s = (0,⟨base+4,released,
        ⟨some base,some (base+1),some (base+2),some (base+3)⟩,attached,fault⟩)) := by
  intro s
  cases hs : o.demodT.client with
  | false =>
    left
    exact ⟨rfl,by simp [s,attachT,probe,hs]⟩
  | true =>
    right
    cases hf : o.demodT.fe with
    | false =>
      left
      exact ⟨rfl,rfl,by simp [s,attachT,probe,hs,hf]⟩
    | true =>
      right
      cases ht : o.tunerT with
      | false =>
        left
        exact ⟨rfl,rfl,rfl,by simp [s,attachT,probe,hs,hf,ht]⟩
      | true =>
        right
        exact ⟨rfl,rfl,rfl,by simp [s,attachT,probe,hs,hf,ht]⟩

/-- What an attach from zeroed private data leaves: the clients that it obtained are
recorded, it dropped client `i`, or it got stuck. -/
inductive Attached (o : Outcome) (s : Sys) : Sys → Prop
  | held {n : ℕ} {c : Clt} (hr : Recorded o) (h : Held s.next n c) :
      Attached o s ⟨n,s.released,c,s.attached,s.fault⟩
  | dropped {n : ℕ} {c : Clt} (i : ℕ) (hr : ¬ Recorded o) (hb : s.next ≤ i) (hi : i < n)
      (h : i ∉ c.recorded) : Attached o s ⟨n,s.released,c,s.attached,s.fault⟩
  | stuck {n : ℕ} {c : Clt} (hr : ¬ Recorded o) : Attached o s ⟨n,s.released,c,s.attached,true⟩

theorem attach_cases (o : Outcome) (s : Sys) (hc : s.clt = .zero) :
    Attached o s (attach o s).2 := by
  obtain ⟨next,released,clt,attached,fault⟩ := s
  obtain rfl : clt = .zero := hc
  by_cases ht : o.transferInit < 0
  · rw [attach,if_pos ht]
    exact .held (Or.inl ht) .nothing
  have hneg : (-Errno.enodev : ℤ) < 0 := by decide
  have hpos : ¬ (0 : ℤ) < 0 := by decide
  rcases attachS_cases o ⟨next,released,.zero,attached,fault⟩ rfl with
    ⟨hd,hs⟩ | ⟨hd,hf,hs⟩ | ⟨hd,hf,hts,hs⟩
  · rw [attach,if_neg ht,hs,if_pos hneg]
    exact .held (Or.inr (Or.inl hd)) .nothing
  · rw [attach,if_neg ht,hs,if_pos hneg]
    refine .dropped next ?_ le_rfl (Nat.lt_succ_self _) ?_
    · rcases hf with hf | hf <;> simp [Recorded,ht,hd,hf]
    · simp [Clt.recorded,Clt.zero]
  · rw [attach,if_neg ht,hs,if_neg hpos]
    rcases attachT_cases o next released attached fault with
      ⟨hdt,h⟩ | ⟨hdt,hft,h⟩ | ⟨hdt,hft,htt,h⟩ | ⟨hdt,hft,htt,h⟩ <;> rw [h]
    · exact .held (Or.inr (Or.inr ⟨hf,hts,Or.inl hdt⟩)) .s
    · exact .stuck (by simp [Recorded,ht,hd,hf,hts,hdt,hft])
    · refine .dropped (next+2) ?_ (Nat.le_add_right _ _) (Nat.lt_succ_self _) ?_
      · simp [Recorded,ht,hd,hf,hts,hdt,hft,htt]
      · simp [Clt.recorded]
    · exact .held (Or.inr (Or.inr ⟨hf,hts,Or.inr ⟨hft,htt⟩⟩)) .both

theorem detach_released (s : Sys) :
    (detach s).released = s.released ++ [s.clt.demodS,s.clt.demodT].filterMap id := by
  obtain ⟨next,released,⟨demodS,tunerS,demodT,tunerT⟩,attached,fault⟩ := s
  cases demodS <;> cases demodT <;> simp [detach,release]

theorem detach_next (s : Sys) : (detach s).next = s.next := by
  obtain ⟨next,released,⟨demodS,tunerS,demodT,tunerT⟩,attached,fault⟩ := s
  cases demodS <;> cases demodT <;> rfl

theorem detach_fault (s : Sys) : (detach s).fault = s.fault := by
  obtain ⟨next,released,⟨demodS,tunerS,demodT,tunerT⟩,attached,fault⟩ := s
  cases demodS <;> cases demodT <;> rfl

theorem Held.of_no_tuner {base next : ℕ} {c : Clt} (h : Held base next c)
    (hs : c.tunerS = none) : next = base ∧ c = .zero := by
  cases h with
  | nothing => exact ⟨rfl,rfl⟩
  | s => cases hs
  | both => cases hs

theorem Held.of_tuner {base next : ℕ} {c : Clt} (h : Held base next c)
    (hc : ¬ (c.tunerS = none ∧ c.tunerT = none)) :
    base+1 < next ∧ base+1 ∉ [c.demodS,c.demodT].filterMap id := by
  cases h with
  | nothing => exact absurd ⟨rfl,rfl⟩ hc
  | s => simp
  | both => simp

theorem step_attach {s : Sys} (o : Outcome) (h : s.attached = false) (hf : s.fault = false) :
    step s (.attach o) = some {(attach o {s with clt := .zero}).2 with attached := true} := by
  simp [step,h,hf]

theorem step_detach {s : Sys} (h : s.attached = true) (hf : s.fault = false) :
    step s .detach = some {detach s with attached := false} :=
  if_pos ⟨h,hf⟩

theorem inv_step (s : Sys) (a : Action) (t : Sys) (hs : Inv s) (hk : Kept s a)
    (h : step s a = some t) : Inv t := by
  cases a with
  | attach o =>
    cases ha : s.attached with
    | true => simp [step,ha] at h
    | false =>
      rw [step_attach o ha hs.fault] at h
      obtain rfl := Option.some.inj h
      have hat := attach_cases o {s with clt := .zero} rfl
      generalize (attach o {s with clt := .zero}).2 = u at hat ⊢
      cases hat with
      | held _ hh => exact ⟨hs.fault,s.next,hs.settled ha,hh⟩
      | dropped i hn => exact absurd (hk ha) hn
      | stuck hn => exact absurd (hk ha) hn
  | detach =>
    cases ha : s.attached with
    | false => simp [step,ha] at h
    | true =>
      obtain ⟨base,hb,hh⟩ := hs.held ha
      rw [step_detach ha hs.fault] at h
      obtain rfl := Option.some.inj h
      obtain ⟨hn,hc⟩ := hh.of_no_tuner (hk ha).1
      refine ⟨(detach_fault s).trans hs.fault,fun i => ?_⟩
      rw [detach_released,hc,detach_next,hn]
      simpa [Clt.zero] using hb i

/-- A step outside the condition is taken, and leaves a client behind. -/
theorem unbalanced_step (s : Sys) (a : Action) (hs : Inv s) (hk : ¬ Kept s a) :
    ∃ t, step s a = some t ∧ ¬ Balanced t := by
  cases a with
  | attach o =>
    obtain ⟨ha,hr⟩ := Classical.not_imp.mp hk
    refine ⟨_,step_attach o ha hs.fault,?_⟩
    have hat := attach_cases o {s with clt := .zero} rfl
    generalize (attach o {s with clt := .zero}).2 = u at hat ⊢
    cases hat with
    | held hrec => exact absurd hrec hr
    | dropped i _ hb hi hout =>
      intro hbal
      have hm : i ∉ s.released := fun hm =>
        absurd (((hs.settled ha).mem i).mp hm) (Nat.not_lt.mpr hb)
      exact hout ((hbal.2 i).mp ⟨hi,hm⟩)
    | stuck =>
      intro hbal
      cases hbal.1
  | detach =>
    obtain ⟨ha,hc⟩ := Classical.not_imp.mp hk
    obtain ⟨base,hb,hh⟩ := hs.held ha
    refine ⟨_,step_detach ha hs.fault,fun hbal => ?_⟩
    obtain ⟨hlt,hout⟩ := hh.of_tuner hc
    have hcount : (detach s).released.count (base+1) = 1 :=
      hbal.2 (base+1) (by simpa [detach_next] using hlt)
    have hold : s.released.count (base+1) = 0 := by rw [hb,if_neg (by omega)]
    rw [detach_released,List.count_append,hold,List.count_eq_zero_of_not_mem hout] at hcount
    exact absurd hcount (by decide)

/-- Over every run of plug and unplug cycles the clients stay balanced exactly when every
attach comes back with what it obtained on record and no detach finds a tuner client. -/
theorem balanced_iff_kept (as : List Action) :
    Always Balanced step Sys.begin as ↔ Along Kept step Sys.begin as := by
  have h0 : Inv Sys.begin := ⟨rfl,fun i => by simp [Sys.begin]⟩
  constructor
  · exact along_of_always unbalanced_step inv_step h0
  · exact always_of_along inv_step (fun _ h => h.balanced) h0

/-- A cycle in which everything is found loses both tuner clients. -/
theorem tuners_leaked : ¬ ∀ as s, Exec step Sys.begin as s → Balanced s := by
  intro h
  have hrun : run step Sys.begin [.attach ⟨0,⟨true,true⟩,true,⟨true,true⟩,true⟩,.detach] =
      some ⟨4,[0,2],⟨none,some 1,none,some 3⟩,false,false⟩ := rfl
  have hb := (h _ _ (exec_of_run hrun)).2 1 (by decide)
  exact absurd hb (by decide)

end Clients
end AkbPcr20x
