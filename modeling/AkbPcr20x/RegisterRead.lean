import AkbPcr20x.Agreement

/-! A register read is a write of the register number and a read in one packet. The
USB layer is instantiated with the firmware behind endpoint 1, so that the return
code of the driver meets the outcome of the I2C calls. -/
namespace AkbPcr20x
namespace RegisterRead

open Memory MainLoop Command I2cXfer I2cEngine Link Agreement

variable {σ : Type}

/-- What becomes of the two bulk transfers of a call: both are carried out, or the host
gives one of them up. -/
inductive Fate
  | done
  | outError (taken : Bool)
  | inError
  deriving DecidableEq

/-- The firmware, the fate of the next call and the events of the pass over its packet. -/
structure Host (σ : Type) where
  fw : Fw σ
  fate : Fate
  own : List Ev

def serve (b : Board σ) (pkt : List Byte) (h : Host σ) : Host σ :=
  {h with fw := mainLoop b (deliver h.fw pkt),
          own := if h.fw.inBusy then [] else (pass b (deliver h.fw pkt)).log}

/-- The firmware polls before the call; the packet is taken when EP1OUT is armed then. -/
def poll (b : Board σ) (h : Host σ) : Host σ := {h with fw := mainLoop b h.fw, own := []}

def takeAnswer (h : Host σ) : Host σ := {h with fw := {h.fw with inBusy := false}}

/-- The bulk IN transfer of `rlen` bytes: nothing to read, an answer that is too long,
or an answer. -/
def bulkIn (rlen : ℕ) (h : Host σ) : ℤ × List Byte × Host σ :=
  match answer h.fw with
  | none => (-Errno.etimedout,[],h)
  | some a =>
    if rlen < a.length then (-Errno.eoverflow,a.take rlen,takeAnswer h) else (0,a,takeAnswer h)

def genericRw (b : Board σ) (pkt : List Byte) (rlen : ℕ) (h : Host σ) : ℤ × List Byte × Host σ :=
  let h := poll b h
  if h.fw.outBusy = false then (-Errno.etimedout,[],h)
  else
    match h.fate with
    | .done => bulkIn rlen (serve b pkt h)
    | .outError false => (-Errno.etimedout,[],h)
    | .outError true => (-Errno.etimedout,[],serve b pkt h)
    | .inError => (-Errno.etimedout,[],serve b pkt h)

def genericWrite (b : Board σ) (pkt : List Byte) (h : Host σ) : ℤ × Host σ :=
  let h := poll b h
  if h.fw.outBusy = false then (-Errno.etimedout,h)
  else
    match h.fate with
    | .outError false => (-Errno.etimedout,h)
    | .outError true => (-Errno.etimedout,serve b pkt h)
    | _ => (0,serve b pkt h)

def host (b : Board σ) : Usb (Host σ) where
  genericWrite := genericWrite b
  genericRw := genericRw b
  clearHalt h := h

/-- Success means that the device took the register number before it was read. -/
def Selected (b : Board σ) (x : Xfer (Host σ)) (m r : I2cMsg) : Prop :=
  (i2cXfer (host b) true [m,r] x).1 = 2 →
    ∃ data, (i2cXfer (host b) true [m,r] x).2.reads = x.reads ++ [(1,data)] ∧
      (i2cXfer (host b) true [m,r] x).2.usb.own =
        [.i2cWrite (m.addr.setWidth 8) m.buf true,.i2cRead (m.addr.setWidth 8) r.len true data]

/-- The call goes wrong: an older answer waits in EP1IN, or the write fails and the
read behind it succeeds. -/
def Unselected (b : Board σ) (h : Host σ) (m r : I2cMsg) : Prop :=
  h.fate = .done ∧ (mainLoop b h.fw).outBusy = true ∧
    match answer (mainLoop b h.fw) with
    | some old => old.length ≤ r.len
    | none => m.len ≤ i2cBufLen ∧ r.len ≤ i2cBufLen ∧
        (writeCall b (mainLoop b h.fw).core m).1 = false ∧
        (readCall b (mainLoop b h.fw).core m r).1 = true

/-- An older answer keeps the firmware from running the packet. -/
theorem serve_blocked (b : Board σ) (pkt : List Byte) {h : Host σ} (hi : h.fw.inBusy = true) :
    (serve b pkt h).own = [] ∧ answer (serve b pkt h).fw = answer h.fw := by
  simp [serve,hi,mainLoop,deliver,answer]

theorem serve_free (b : Board σ) {m r : I2cMsg} (h : (Transaction.pair m r).Accepted)
    {h₀ : Host σ} (hi : h₀.fw.inBusy = false) :
    (serve b (Transaction.pair m r).packet h₀).own =
        (effect b h₀.fw.core (Transaction.pair m r).packet).log ∧
      answer (serve b (Transaction.pair m r).packet h₀).fw =
        if m.len ≤ i2cBufLen ∧ r.len ≤ i2cBufLen ∧ (readCall b h₀.fw.core m r).1 = true then
          some (load (readCall b h₀.fw.core m r).2.1 0 r.len) else none := by
  constructor
  · have hl := (pass_deliver b h₀.fw (packet_lt h)).log
    simpa [serve,hi,start] using hl
  · by_cases hf : m.len ≤ i2cBufLen ∧ r.len ≤ i2cBufLen
    · have ha := (served_pair b hi h hf.1 hf.2).answer_eq
      simp only [hf.1,hf.2,true_and]
      exact ha
    · have he := effect_refused b h₀.fw.core h hf
      have ha := answer_mainLoop b (rfl : (deliver h₀.fw (Transaction.pair m r).packet).outBusy =
        false) hi
      rw [packet_deliver h₀.fw (packet_lt h)] at ha
      have hn : ¬ (m.len ≤ i2cBufLen ∧ r.len ≤ i2cBufLen ∧
        (readCall b h₀.fw.core m r).1 = true) := fun hk => hf ⟨hk.1,hk.2.1⟩
      rw [if_neg hn]
      exact (ha (by simp [deliver,he])).trans (if_pos he)

theorem i2cXfer_host (b : Board σ) (x : Xfer (Host σ)) {m r : I2cMsg}
    (h : (Transaction.pair m r).Accepted) :
    let g := genericRw b (Transaction.pair m r).packet r.len x.usb
    (g.1 < 0 → (i2cXfer (host b) true [m,r] x).1 < 0) ∧
      (g.1 = 0 → (i2cXfer (host b) true [m,r] x).1 = 2 ∧
        (i2cXfer (host b) true [m,r] x).2.usb = g.2.2 ∧
        (i2cXfer (host b) true [m,r] x).2.reads =
          x.reads ++ [(1,load (store x.rbuf 0 g.2.1) 0 r.len)]) := by
  have hp := (Transaction.pair m r).load_fill x.wbuf
  rw [i2cXfer_pair (host b) x h]
  simp only [submit,host,hp]
  constructor
  · intro hg
    simp [hg]
  · intro hg
    simp [hg]

theorem bulkIn_none {rlen : ℕ} {h : Host σ} (ha : answer h.fw = none) :
    (bulkIn rlen h).1 < 0 := by
  simp [bulkIn,ha,Errno.etimedout]

theorem bulkIn_long {rlen : ℕ} {h : Host σ} {a : List Byte} (ha : answer h.fw = some a)
    (hl : rlen < a.length) : (bulkIn rlen h).1 < 0 := by
  simp [bulkIn,ha,hl,Errno.eoverflow]

theorem bulkIn_some {rlen : ℕ} {h : Host σ} {a : List Byte} (ha : answer h.fw = some a)
    (hl : a.length ≤ rlen) : bulkIn rlen h = (0,a,takeAnswer h) := by
  simp [bulkIn,ha,Nat.not_lt.mpr hl]

theorem selected_of_neg (b : Board σ) (x : Xfer (Host σ)) {m r : I2cMsg}
    (h : (Transaction.pair m r).Accepted)
    (hg : (genericRw b (Transaction.pair m r).packet r.len x.usb).1 < 0) : Selected b x m r := by
  intro h2
  have hn := (i2cXfer_host b x h).1 hg
  omega

theorem selected_iff_of_some (b : Board σ) (x : Xfer (Host σ)) {m r : I2cMsg}
    (h : (Transaction.pair m r).Accepted) {h₀ : Host σ} {a : List Byte}
    (hg : genericRw b (Transaction.pair m r).packet r.len x.usb = (0,a,takeAnswer h₀)) :
    Selected b x m r ↔
      h₀.own = [.i2cWrite (m.addr.setWidth 8) m.buf true,
        .i2cRead (m.addr.setWidth 8) r.len true (load (store x.rbuf 0 a) 0 r.len)] := by
  obtain ⟨h2,hu,hr⟩ := (i2cXfer_host b x h).2 (by rw [hg])
  rw [hg] at hu hr
  constructor
  · intro hs
    obtain ⟨data,hd,ho⟩ := hs h2
    rw [hr,List.append_right_inj,List.cons.injEq,Prod.mk.injEq] at hd
    rw [hu] at ho
    rw [hd.1.2]
    exact ho
  · intro ho _
    exact ⟨_,hr,by rw [hu]; exact ho⟩

theorem selected_iff_of_free (b : Board σ) (x : Xfer (Host σ)) {m r : I2cMsg}
    (h : (Transaction.pair m r).Accepted) {h₀ : Host σ} (hi : h₀.fw.inBusy = false)
    (hg : genericRw b (Transaction.pair m r).packet r.len x.usb =
      bulkIn r.len (serve b (Transaction.pair m r).packet h₀)) :
    Selected b x m r ↔ ¬ (m.len ≤ i2cBufLen ∧ r.len ≤ i2cBufLen ∧
      (writeCall b h₀.fw.core m).1 = false ∧ (readCall b h₀.fw.core m r).1 = true) := by
  obtain ⟨ho,ha⟩ := serve_free b h hi
  by_cases hc : m.len ≤ i2cBufLen ∧ r.len ≤ i2cBufLen ∧ (readCall b h₀.fw.core m r).1 = true
  · obtain ⟨hm,hr,hk⟩ := hc
    have hlen : (load (readCall b h₀.fw.core m r).2.1 0 r.len).length = r.len := load_length _ _ _
    rw [if_pos ⟨hm,hr,hk⟩] at ha
    rw [bulkIn_some ha hlen.le] at hg
    rw [selected_iff_of_some b x h hg,ho,(effect_pair b h₀.fw.core h hm hr).1,load_store_load]
    cases hw : (writeCall b h₀.fw.core m).1 <;> simp [writeLog,readLog,hm,hr,hk]
  · rw [if_neg hc] at ha
    have hs := selected_of_neg b x h (by rw [hg]; exact bulkIn_none ha)
    exact iff_of_true hs fun hn => hc ⟨hn.1,hn.2.1,hn.2.2.2⟩

theorem genericRw_done (b : Board σ) (pkt : List Byte) (rlen : ℕ) {h : Host σ}
    (ho : (mainLoop b h.fw).outBusy = true) (hf : h.fate = .done) :
    genericRw b pkt rlen h = bulkIn rlen (serve b pkt (poll b h)) := by
  simp [genericRw,poll,ho,hf]

theorem genericRw_lost (b : Board σ) (pkt : List Byte) (rlen : ℕ) {h : Host σ}
    (hl : (mainLoop b h.fw).outBusy = false ∨ h.fate ≠ .done) :
    (genericRw b pkt rlen h).1 < 0 := by
  cases ho : (mainLoop b h.fw).outBusy with
  | false => simp [genericRw,poll,ho,Errno.etimedout]
  | true =>
    cases hf : h.fate with
    | done => simp [ho,hf] at hl
    | outError taken => cases taken <;> simp [genericRw,poll,ho,hf,Errno.etimedout]
    | inError => simp [genericRw,poll,ho,hf,Errno.etimedout]

/-- For every pair the driver accepts, every board and every state of the link, a
reported success means a taken register number if and only if the call does not find
an older answer and does not fail in the write alone. -/
theorem selected_iff (b : Board σ) (x : Xfer (Host σ)) {m r : I2cMsg}
    (h : (Transaction.pair m r).Accepted) : Selected b x m r ↔ ¬ Unselected b x.usb m r := by
  by_cases hl : (mainLoop b x.usb.fw).outBusy = false ∨ x.usb.fate ≠ .done
  · have hs := selected_of_neg b x h (genericRw_lost b _ _ hl)
    refine iff_of_true hs fun hu => ?_
    rcases hl with ho | hf
    · exact absurd (ho.symm.trans hu.2.1) (by decide)
    · exact hf hu.1
  obtain ⟨ho,hf⟩ := not_or.mp hl
  rw [Bool.not_eq_false] at ho
  rw [not_not] at hf
  have hg := genericRw_done b (Transaction.pair m r).packet r.len ho hf
  rw [Unselected]
  simp only [hf,ho,true_and]
  cases hi : (mainLoop b x.usb.fw).inBusy with
  | false =>
    have ha : answer (mainLoop b x.usb.fw) = none := by simp [answer,hi]
    rw [ha]
    exact selected_iff_of_free b x h hi hg
  | true =>
    have ha : ∃ old, answer (mainLoop b x.usb.fw) = some old := by simp [answer,hi]
    obtain ⟨old,ha⟩ := ha
    obtain ⟨hown,hs⟩ := serve_blocked b (Transaction.pair m r).packet (h := poll b x.usb) hi
    rw [ha]
    by_cases hle : old.length ≤ r.len
    · rw [bulkIn_some (hs.trans ha) hle] at hg
      rw [selected_iff_of_some b x h hg,hown]
      simp [hle]
    · have hn := selected_of_neg b x h (by rw [hg]; exact bulkIn_long (hs.trans ha) (by omega))
      exact iff_of_true hn hle

theorem selected_sample :
    Selected ackBoard (Xfer.zero ⟨acking,.done,[]⟩) selectMsg readMsg := by
  refine (selected_iff ackBoard (Xfer.zero ⟨acking,.done,[]⟩) ?_).mpr ?_
  · exact select_accepted
  · rintro ⟨_,_,h⟩
    have hw : (writeCall ackBoard acking.core selectMsg).1 = false := h.2.2.1
    revert hw
    decide

/-- The device takes its address only from the third attempt on: both attempts of the
write are refused, the read is not. -/
def nacking : Fw Ctl :=
  idle (Ctl.fresh (fun n => if n < 14 then 0x01 else 0x03)
    fun i => [0xff,0x00,0x0e,0x47].getD i 0)

/-- The write of the register number fails and the call still reports success. -/
theorem unselected_sample :
    let x := i2cXfer (host ackBoard) true [selectMsg,readMsg] (Xfer.zero ⟨nacking,.done,[]⟩)
    x.1 = 2 ∧ x.2.reads = [(1,[0x00,0x0e,0x47])] ∧
      x.2.usb.own = [.i2cWrite 0x10 [0x8b] false,.writeErrcnt,
        .i2cRead 0x10 3 true [0x00,0x0e,0x47]] ∧
      ¬ Selected ackBoard (Xfer.zero ⟨nacking,.done,[]⟩) selectMsg readMsg := by
  refine ⟨rfl,rfl,rfl,fun h => ?_⟩
  obtain ⟨data,_,ho⟩ := h rfl
  have hn : [Ev.i2cWrite 0x10 [0x8b] false,.writeErrcnt,
    .i2cRead 0x10 3 true [0x00,0x0e,0x47]] = [.i2cWrite 0x10 [0x8b] true,.i2cRead 0x10 3 true data]
    := ho
  simp at hn

end RegisterRead
end AkbPcr20x
