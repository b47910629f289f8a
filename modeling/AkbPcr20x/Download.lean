import AkbPcr20x.FirmwareImage

/-! The firmware download of the driver. `ctrl k` is what the USB core returns
for the `k`-th control transfer of the call, so one function stands for every
outcome of the transfers. -/
namespace AkbPcr20x
namespace Download

open FirmwareImage

/-- One `usb_control_msg_send` on the control endpoint. -/
structure CtrlWrite where
  request : Byte
  value : Word
  index : Word
  data : List Byte
  deriving DecidableEq

def fx2RegCpuReset : Word := 0xe600
def fx2ReqFirmwareDownload : Byte := 0xa0

/-- The return code and the transfers issued so far. -/
def usbControlWrite (ctrl : ℕ → ℤ) (request : Byte) (value index : Word) (data : List Byte)
    (sent : List CtrlWrite) : ℤ × List CtrlWrite :=
  let ret := ctrl sent.length
  (if ret < 0 then ret else 0,sent ++ [⟨request,value,index,data⟩])

def fx2CpuRun (ctrl : ℕ → ℤ) (sent : List CtrlWrite) : ℤ × List CtrlWrite :=
  usbControlWrite ctrl fx2ReqFirmwareDownload fx2RegCpuReset 0 [0] sent

def fx2CpuStop (ctrl : ℕ → ℤ) (sent : List CtrlWrite) : ℤ × List CtrlWrite :=
  usbControlWrite ctrl fx2ReqFirmwareDownload fx2RegCpuReset 0 [1] sent

/-- The locals of `akb_pcr20x_download_firmware`; `failed` is set where the source
leaves through `goto fail`. -/
structure Locals where
  ret : ℤ
  cpuRun : Bool
  failed : Bool
  sent : List CtrlWrite

/-- The loop over the records, with `p` the offset of the pointer into the copied
image. Each turn advances `p` by at least four, so the image length is enough fuel. -/
def recordLoop (ctrl : ℕ → ℤ) (fw : List Byte) : ℕ → ℕ → Locals → Locals
  | 0, _, s => s
  | fuel+1, p, s =>
    let remain := fw.length - p
    if remain < 4 then s
    else
      let len := be16 (fw.getD p 0) (fw.getD (p+1) 0)
      let value := be16 (fw.getD (p+2) 0) (fw.getD (p+3) 0)
      let size := len &&& 0x7fff
      if remain < 4 + size.toNat then {s with ret := -Errno.einval, failed := true}
      else
        let data := (fw.drop (p+4)).take size.toNat
        let r := usbControlWrite ctrl fx2ReqFirmwareDownload value 0 data s.sent
        if r.1 < 0 then {s with ret := r.1, failed := true, sent := r.2}
        else if len &&& 0x8000 ≠ 0 then
          {s with
            ret := 0
            cpuRun := if size = 1 ∧ value = fx2RegCpuReset ∧ fw.getD (p+4) 0 = 0 then true
              else s.cpuRun
            sent := r.2}
        else recordLoop ctrl fw fuel (p+4+size.toNat) {s with ret := r.1, sent := r.2}

def afterLoop (ctrl : ℕ → ℤ) (s : Locals) : ℤ × List CtrlWrite :=
  if s.failed then (s.ret,s.sent)
  else if s.ret = 0 ∧ s.cpuRun = false then fx2CpuRun ctrl s.sent
  else (s.ret,s.sent)

/-- `kmalloc` says whether the allocation of the copy succeeds. -/
def downloadFirmware (ctrl : ℕ → ℤ) (kmalloc : Bool) (fw : List Byte) : ℤ × List CtrlWrite :=
  if fw.length < 13 then (-Errno.einval,[])
  else if kmalloc = false then (-Errno.enomem,[])
  else
    let stop := fx2CpuStop ctrl []
    if stop.1 < 0 then stop
    else afterLoop ctrl (recordLoop ctrl fw fw.length 8 ⟨stop.1,false,false,stop.2⟩)

def cpuStopWrite : CtrlWrite := ⟨fx2ReqFirmwareDownload,fx2RegCpuReset,0,[1]⟩

def cpuRunWrite : CtrlWrite := ⟨fx2ReqFirmwareDownload,fx2RegCpuReset,0,[0]⟩

def recordWrite (r : Record) : CtrlWrite := ⟨fx2ReqFirmwareDownload,r.value,0,r.payload⟩

def issue (ctrl : ℕ → ℤ) (sent : List CtrlWrite) : List CtrlWrite → ℤ × List CtrlWrite
  | [] => (0,sent)
  | w::ws =>
    if ctrl sent.length < 0 then (ctrl sent.length,sent ++ [w])
    else issue ctrl (sent ++ [w]) ws

def sentRecords (d : List Record × Stop) : List Record :=
  d.1 ++ match d.2 with
    | .ended e => [e]
    | _ => []

/-- The CPU run a walk that stopped this way still owes. -/
def closing : Stop → List CtrlWrite
  | .exhausted => [cpuRunWrite]
  | .truncated => []
  | .ended e => if recordWrite e = cpuRunWrite then [] else [cpuRunWrite]

def verdict : Stop → ℤ
  | .truncated => -Errno.einval
  | _ => 0

def transfers (d : List Record × Stop) : List CtrlWrite :=
  (sentRecords d).map recordWrite ++ closing d.2

/-- A failed transfer decides the result, otherwise the end of the walk does. -/
def conclude (stop : Stop) (r : ℤ × List CtrlWrite) : ℤ × List CtrlWrite :=
  (if r.1 < 0 then r.1 else verdict stop,r.2)

theorem usbControlWrite_eq (ctrl : ℕ → ℤ) (w : CtrlWrite) (sent : List CtrlWrite) :
    usbControlWrite ctrl w.request w.value w.index w.data sent = issue ctrl sent [w] := by
  simp only [usbControlWrite,issue]
  split <;> rfl

theorem issue_cases (ctrl : ℕ → ℤ) (sent ws : List CtrlWrite) :
    ((∀ i < ws.length, 0 ≤ ctrl (sent.length+i)) ∧ issue ctrl sent ws = (0,sent ++ ws)) ∨
    ∃ i < ws.length, ctrl (sent.length+i) < 0 ∧ (∀ j < i, 0 ≤ ctrl (sent.length+j)) ∧
      issue ctrl sent ws = (ctrl (sent.length+i),sent ++ ws.take (i+1)) := by
  induction ws generalizing sent with
  | nil => exact Or.inl ⟨by simp,by simp [issue]⟩
  | cons w ws ih =>
    by_cases h : ctrl sent.length < 0
    · exact Or.inr ⟨0,by simp,h,by simp,by simp [issue,h]⟩
    · have hl : (sent ++ [w]).length = sent.length+1 := by simp
      have hstep : issue ctrl sent (w::ws) = issue ctrl (sent ++ [w]) ws := by
        simp only [issue,if_neg h]
      have hsucc : ∀ i, sent.length+1+i = sent.length+(i+1) := fun i => by omega
      rcases ih (sent ++ [w]) with ⟨hok,he⟩ | ⟨i,hi,hf,hb,he⟩
      · refine Or.inl ⟨fun i hi => ?_,by rw [hstep,he]; simp⟩
        cases i with
        | zero => exact not_lt.mp h
        | succ i =>
          rw [← hsucc,← hl]
          exact hok i (by simpa using hi)
      · rw [hl,hsucc] at hf he
        refine Or.inr ⟨i+1,by simpa using hi,hf,fun j hj => ?_,by rw [hstep,he]; simp⟩
        cases j with
        | zero => exact not_lt.mp h
        | succ j =>
          rw [← hsucc,← hl]
          exact hb j (by omega)

theorem getD_drop (fw : List Byte) (p i : ℕ) : fw.getD (p+i) 0 = (fw.drop p).getD i 0 := by
  simp only [List.getD_eq_getElem?_getD,List.getElem?_drop]

theorem fx2CpuRun_eq (ctrl : ℕ → ℤ) (sent : List CtrlWrite) :
    fx2CpuRun ctrl sent = issue ctrl sent [cpuRunWrite] :=
  usbControlWrite_eq ctrl cpuRunWrite sent

theorem conclude_zero {stop : Stop} (h : verdict stop = 0) (r : ℤ × List CtrlWrite)
    (hr : r.1 ≤ 0) : conclude stop r = r := by
  rcases r with ⟨ret,sent⟩
  simp only [conclude,h,Prod.mk.injEq,and_true]
  simp only at hr
  split <;> omega

theorem issue_nonpos (ctrl : ℕ → ℤ) (sent ws : List CtrlWrite) : (issue ctrl sent ws).1 ≤ 0 := by
  rcases issue_cases ctrl sent ws with ⟨_,he⟩ | ⟨i,_,hf,_,he⟩
  · rw [he]
  · rw [he]
    exact hf.le

/-- The end record starts the CPU exactly when it is the single byte 0 to 0xe600. -/
theorem recordWrite_eq_cpuRunWrite (r : Record) :
    recordWrite r = cpuRunWrite ↔ r.value = fx2RegCpuReset ∧ r.payload = [0] := by
  simp [recordWrite,cpuRunWrite]

theorem payload_singleton {size : Word} {q : List Byte} (h : size.toNat ≤ q.length) :
    q.take size.toNat = [0] ↔ size = 1 ∧ q.getD 0 0 = 0 := by
  have hs : size = 1 ↔ size.toNat = 1 := by
    rw [← BitVec.toNat_inj]
    rfl
  rw [hs]
  constructor
  · intro ht
    have hl := congrArg List.length ht
    rw [List.length_take,List.length_singleton,min_eq_left h] at hl
    rw [hl] at ht
    cases q with
    | nil => simp at ht
    | cons x q => exact ⟨hl,by simpa using ht⟩
  · rintro ⟨h1,h0⟩
    rw [h1]
    cases q with
    | nil => simp [h1] at h
    | cons x q => simpa using h0

theorem exists_header {p : List Byte} (h : 4 ≤ p.length) :
    ∃ l₁ l₀ a₁ a₀ q, p = l₁::l₀::a₁::a₀::q := by
  rcases p with _ | ⟨a,_ | ⟨b,_ | ⟨c,_ | ⟨d,q⟩⟩⟩⟩
  all_goals first | exact ⟨_,_,_,_,_,rfl⟩ | (simp only [List.length_cons,List.length_nil] at h; omega)

theorem recordLoop_turn (ctrl : ℕ → ℤ) (fw : List Byte) (fuel p : ℕ) (s : Locals)
    {l₁ l₀ a₁ a₀ : Byte} {q : List Byte} (hq : fw.drop p = l₁::l₀::a₁::a₀::q) :
    recordLoop ctrl fw (fuel+1) p s =
      let size := (be16 l₁ l₀ &&& 0x7fff).toNat
      let r := recordAt (be16 l₁ l₀) (be16 a₁ a₀) q
      let i := issue ctrl s.sent [recordWrite r]
      if q.length < size then {s with ret := -Errno.einval, failed := true}
      else if i.1 < 0 then {s with ret := i.1, failed := true, sent := i.2}
      else if r.isEnd then
        {s with ret := 0, cpuRun := if recordWrite r = cpuRunWrite then true else s.cpuRun,
                sent := i.2}
      else recordLoop ctrl fw fuel (p+4+size) {s with ret := i.1, sent := i.2} := by
  have hq4 : fw.drop (p+4) = q := by
    rw [← List.drop_drop,hq]
    rfl
  have hlen : fw.length - p = 4 + q.length := by
    rw [← List.length_drop,hq]
    simp only [List.length_cons]
    omega
  have h₀ : fw.getD p 0 = l₁ := by
    have hh := getD_drop fw p 0
    rw [hq] at hh
    exact hh
  have h₁ : fw.getD (p+1) 0 = l₀ := by rw [getD_drop,hq]; rfl
  have h₂ : fw.getD (p+2) 0 = a₁ := by rw [getD_drop,hq]; rfl
  have h₃ : fw.getD (p+3) 0 = a₀ := by rw [getD_drop,hq]; rfl
  have h₄ : fw.getD (p+4) 0 = q.getD 0 0 := by
    rw [← hq4,← getD_drop fw (p+4) 0]
  rw [recordLoop]
  simp only [h₀,h₁,h₂,h₃,h₄,hq4,hlen]
  rw [if_neg (by omega)]
  by_cases ht : q.length < (be16 l₁ l₀ &&& 0x7fff).toNat
  · rw [if_pos (by omega),if_pos ht]
  · have hw := usbControlWrite_eq ctrl (recordWrite (recordAt (be16 l₁ l₀) (be16 a₁ a₀) q)) s.sent
    have he : recordWrite (recordAt (be16 l₁ l₀) (be16 a₁ a₀) q) = cpuRunWrite ↔
        be16 l₁ l₀ &&& 0x7fff = 1 ∧ be16 a₁ a₀ = fx2RegCpuReset ∧ q.getD 0 0 = 0 := by
      rw [recordWrite_eq_cpuRunWrite,recordAt,payload_singleton (not_lt.mp ht)]
      tauto
    rw [if_neg (by omega),if_neg ht]
    simp only [recordWrite,recordAt,decide_eq_true_eq] at hw he ⊢
    simp only [hw,he]

theorem afterLoop_exhausted (ctrl : ℕ → ℤ) (sent : List CtrlWrite) :
    afterLoop ctrl ⟨0,false,false,sent⟩ =
      conclude .exhausted (issue ctrl sent (transfers ([],.exhausted))) := by
  rw [conclude_zero rfl _ (issue_nonpos ..)]
  simp [afterLoop,transfers,sentRecords,closing,fx2CpuRun_eq]

theorem afterLoop_ended (ctrl : ℕ → ℤ) (sent : List CtrlWrite) (e : Record) :
    afterLoop ctrl
        (let i := issue ctrl sent [recordWrite e]
        if i.1 < 0 then ⟨i.1,false,true,i.2⟩
        else ⟨0,if recordWrite e = cpuRunWrite then true else false,false,i.2⟩) =
      conclude (.ended e) (issue ctrl sent (transfers ([],.ended e))) := by
  rw [conclude_zero rfl _ (issue_nonpos ..)]
  by_cases hc : ctrl sent.length < 0
  · by_cases hw : recordWrite e = cpuRunWrite <;>
      simp [afterLoop,transfers,sentRecords,closing,issue,hc,hw]
  · by_cases hw : recordWrite e = cpuRunWrite
    · simp [afterLoop,transfers,sentRecords,closing,issue,hc,hw]
    · simp [afterLoop,transfers,sentRecords,closing,issue,hc,hw,fx2CpuRun_eq]

/-- The loop and the code behind it do what the decoded records of the rest of
the image say. -/
theorem recordLoop_spec (ctrl : ℕ → ℤ) (fw : List Byte) (fuel p : ℕ) (sent : List CtrlWrite)
    (hf : fw.length - p ≤ fuel) :
    afterLoop ctrl (recordLoop ctrl fw fuel p ⟨0,false,false,sent⟩) =
      conclude (records.decode (fw.drop p)).2
        (issue ctrl sent (transfers (records.decode (fw.drop p)))) := by
  induction fuel generalizing p sent with
  | zero =>
    have hn : records.next (fw.drop p) = .error .exhausted :=
      next_of_short (by rw [List.length_drop]; omega)
    rw [Decoder.decode_error records hn,recordLoop]
    exact afterLoop_exhausted ctrl sent
  | succ fuel ih =>
    by_cases hr : fw.length - p < 4
    · have hn : records.next (fw.drop p) = .error .exhausted :=
        next_of_short (by rw [List.length_drop]; omega)
      have hl : recordLoop ctrl fw (fuel+1) p ⟨0,false,false,sent⟩ = ⟨0,false,false,sent⟩ := by
        simp [recordLoop,hr]
      rw [Decoder.decode_error records hn,hl]
      exact afterLoop_exhausted ctrl sent
    · obtain ⟨l₁,l₀,a₁,a₀,q,hq⟩ := exists_header (p:=fw.drop p) (by rw [List.length_drop]; omega)
      let r := recordAt (be16 l₁ l₀) (be16 a₁ a₀) q
      have hn : records.next (fw.drop p) =
          if q.length < (be16 l₁ l₀ &&& 0x7fff).toNat then .error .truncated
          else if r.isEnd then .error (.ended r)
          else .ok (r,q.drop (be16 l₁ l₀ &&& 0x7fff).toNat) := by
        rw [hq]
        rfl
      rw [recordLoop_turn ctrl fw fuel p _ hq]
      simp only
      by_cases ht : q.length < (be16 l₁ l₀ &&& 0x7fff).toNat
      · rw [if_pos ht] at hn ⊢
        rw [Decoder.decode_error records hn]
        simp [afterLoop,transfers,sentRecords,closing,issue,conclude,verdict]
      · rw [if_neg ht] at hn ⊢
        by_cases he : r.isEnd = true
        · rw [if_pos he] at hn
          simp only [r] at he
          rw [Decoder.decode_error records hn,if_pos he]
          exact afterLoop_ended ctrl sent r
        · rw [if_neg he] at hn
          have hd : q.drop (be16 l₁ l₀ &&& 0x7fff).toNat =
              fw.drop (p+4+(be16 l₁ l₀ &&& 0x7fff).toNat) := by
            rw [← List.drop_drop,← List.drop_drop (i:=4),hq]
            rfl
          rw [Decoder.decode_ok records hn,hd]
          by_cases hc : ctrl sent.length < 0
          · simp [afterLoop,transfers,sentRecords,issue,hc,conclude,r]
          · have hi : issue ctrl sent [recordWrite r] = (0,sent ++ [recordWrite r]) := by
              simp [issue,hc]
            have hh := ih (p+4+(be16 l₁ l₀ &&& 0x7fff).toNat) (sent ++ [recordWrite r]) (by omega)
            simp only [r] at hi he hh
            rw [hi,if_neg (by simp),if_neg he,hh]
            simp only [transfers,sentRecords,List.map_cons,List.cons_append,issue,if_neg hc,r]

theorem fx2CpuStop_eq (ctrl : ℕ → ℤ) (sent : List CtrlWrite) :
    fx2CpuStop ctrl sent = issue ctrl sent [cpuStopWrite] :=
  usbControlWrite_eq ctrl cpuStopWrite sent

theorem downloadFirmware_eq (ctrl : ℕ → ℤ) (fw : List Byte) (h : 13 ≤ fw.length) :
    downloadFirmware ctrl true fw =
      conclude (records.decode (fw.drop 8)).2
        (issue ctrl [] (cpuStopWrite::transfers (records.decode (fw.drop 8)))) := by
  rw [downloadFirmware,if_neg (by omega),if_neg (by simp),fx2CpuStop_eq]
  by_cases hc : ctrl 0 < 0
  · simp [issue,hc,conclude]
  · have hi : issue ctrl [] [cpuStopWrite] = (0,[cpuStopWrite]) := by simp [issue,hc]
    have hl := recordLoop_spec ctrl fw fw.length 8 [cpuStopWrite] (by omega)
    rw [hi]
    simp only [lt_irrefl,if_false,hl]
    simp [issue,hc]

/-- The byte a transfer puts at an address: the payload is loaded upwards from `value`. -/
def CtrlWrite.byteAt (w : CtrlWrite) (a : Word) : Option Byte := w.data[(a - w.value).toNat]?

def lastWritten (a : Word) (ws : List CtrlWrite) : Option Byte :=
  ws.foldl (fun v w => (w.byteAt a).or v) none

theorem lastWritten_append_run (ws : List CtrlWrite) :
    lastWritten fx2RegCpuReset (ws ++ [cpuRunWrite]) = some 0 := by
  rw [lastWritten,List.foldl_append]
  rfl

theorem transfers_run (d : List Record × Stop) (h : verdict d.2 = 0) :
    ∃ ws, transfers d = ws ++ [cpuRunWrite] := by
  rcases d with ⟨rs,stop⟩
  cases stop with
  | exhausted => exact ⟨rs.map recordWrite,by simp [transfers,sentRecords,closing]⟩
  | truncated => simp [verdict,Errno.einval] at h
  | ended e =>
    by_cases he : recordWrite e = cpuRunWrite
    · exact ⟨rs.map recordWrite,by simp [transfers,sentRecords,closing,he]⟩
    · exact ⟨rs.map recordWrite ++ [recordWrite e],by simp [transfers,sentRecords,closing,he]⟩

theorem lastWritten_of_success (ctrl : ℕ → ℤ) (fw : List Byte) (h : 13 ≤ fw.length)
    (hr : (downloadFirmware ctrl true fw).1 = 0) :
    lastWritten fx2RegCpuReset (downloadFirmware ctrl true fw).2 = some 0 := by
  rw [downloadFirmware_eq ctrl fw h] at hr ⊢
  rcases issue_cases ctrl [] (cpuStopWrite::transfers (records.decode (fw.drop 8))) with
    ⟨_,he⟩ | ⟨i,_,hf,_,he⟩
  · rw [he] at hr ⊢
    obtain ⟨ws,hw⟩ := transfers_run _ (by simpa [conclude] using hr)
    simp only [conclude,hw,List.nil_append]
    exact lastWritten_append_run (cpuStopWrite::ws)
  · rw [he] at hr
    simp only [conclude,hf,if_true] at hr
    omega

theorem payload_slice {fw : List Byte} {pre q : List Byte} {r : Record}
    (h : fw.drop 8 = pre ++ r.encode ++ q) :
    12 + pre.length + r.payload.length ≤ fw.length ∧
      r.payload = (fw.drop (12+pre.length)).take r.payload.length := by
  have hl := congrArg List.length h
  simp only [List.length_drop,List.length_append,r.encode_length] at hl
  refine ⟨by omega,?_⟩
  have hh : r.header.length = 4 := rfl
  have hd : fw.drop (12+pre.length) = r.payload ++ q := by
    rw [show 12+pre.length = 8+(pre ++ r.header).length by simp [hh]; omega,← List.drop_drop,h,
      Record.encode,← List.append_assoc pre,List.append_assoc,List.drop_left]
  rw [hd,List.take_left]

theorem sentRecords_slice (fw : List Byte) (r : Record)
    (hr : r ∈ sentRecords (records.decode (fw.drop 8))) :
    ∃ off, off + r.payload.length ≤ fw.length ∧
      r.payload = (fw.drop off).take r.payload.length := by
  obtain ⟨_,q,hp,hn⟩ := decode_sound (p:=fw.drop 8) rfl
  rcases List.mem_append.mp hr with hm | hm
  · obtain ⟨pre,post,he⟩ := List.append_of_mem hm
    have hh : fw.drop 8 = pre.flatMap Record.encode ++ r.encode ++
        (post.flatMap Record.encode ++ q) := by
      rw [hp,he]
      simp [List.append_assoc]
    obtain ⟨h₁,h₂⟩ := payload_slice hh
    exact ⟨_,h₁,h₂⟩
  · cases hs : (records.decode (fw.drop 8)).2 with
    | exhausted => simp [hs] at hm
    | truncated => simp [hs] at hm
    | ended e =>
      rw [hs] at hn hm
      obtain ⟨_,q',hq⟩ := next_ended hn
      obtain rfl : r = e := by simpa using hm
      obtain ⟨h₁,h₂⟩ := payload_slice (q:=q') (by rw [hp,hq,List.append_assoc])
      exact ⟨_,h₁,h₂⟩

/-- Bytes behind the closing record do not change the download. -/
theorem downloadFirmware_ignores_tail (ctrl : ℕ → ℤ) (fw tail : List Byte) (h : 13 ≤ fw.length)
    {rs : List Record} {e : Record} (hd : records.decode (fw.drop 8) = (rs,.ended e))
    (ht : 13 ≤ (fw.take (8 + size (rs ++ [e])) ++ tail).length) :
    downloadFirmware ctrl true (fw.take (8 + size (rs ++ [e])) ++ tail) =
      downloadFirmware ctrl true fw := by
  obtain ⟨hrs,q,hp,hn⟩ := decode_sound hd
  obtain ⟨he,q',rfl⟩ := next_ended hn
  have hs : ((rs ++ [e]).flatMap Record.encode).length = size (rs ++ [e]) := rfl
  have hp' : fw.drop 8 = (rs ++ [e]).flatMap Record.encode ++ q' := by
    rw [hp]
    simp [List.append_assoc]
  have hl := congrArg List.length hp'
  rw [List.length_drop,List.length_append,hs] at hl
  have ht8 : (fw.take (8 + size (rs ++ [e])) ++ tail).drop 8 =
      rs.flatMap Record.encode ++ (e.encode ++ tail) := by
    rw [List.drop_append_of_le_length (by rw [List.length_take]; omega),List.drop_take,
      Nat.add_sub_cancel_left,hp',← hs,List.take_left]
    simp [List.append_assoc]
  rw [downloadFirmware_eq ctrl _ ht,downloadFirmware_eq ctrl _ h,ht8,decode_image hrs he,hd]

/-- The download sends exactly the records of the image between the CPU stop and
the CPU run, up to the first transfer that fails. -/
theorem downloadFirmware_sends_records (ctrl : ℕ → ℤ) (fw : List Byte) (h : 13 ≤ fw.length) :
    downloadFirmware ctrl true fw =
        conclude (records.decode (fw.drop 8)).2
          (issue ctrl [] (cpuStopWrite::transfers (records.decode (fw.drop 8)))) ∧
      (∀ r ∈ sentRecords (records.decode (fw.drop 8)),
        ∃ off, off + r.payload.length ≤ fw.length ∧
          r.payload = (fw.drop off).take r.payload.length) ∧
      (∀ rs e, records.decode (fw.drop 8) = (rs,.ended e) → ∀ tail,
        13 ≤ (fw.take (8 + size (rs ++ [e])) ++ tail).length →
          downloadFirmware ctrl true (fw.take (8 + size (rs ++ [e])) ++ tail) =
            downloadFirmware ctrl true fw) ∧
      ((downloadFirmware ctrl true fw).1 = 0 →
        lastWritten fx2RegCpuReset (downloadFirmware ctrl true fw).2 = some 0) :=
  ⟨downloadFirmware_eq ctrl fw h,sentRecords_slice fw,
    fun _ _ hd tail ht => downloadFirmware_ignores_tail ctrl fw tail h hd ht,
    lastWritten_of_success ctrl fw h⟩

/-- Two records, and a closing one that starts the CPU itself. -/
def jumpImage : List Byte :=
  [0xc2,0x47,0x05,0x31,0x21,0x00,0x00,0x04] ++ [0x00,0x03,0x00,0x00,0x02,0x09,0x3f] ++
    [0x00,0x02,0x09,0x3f,0x80,0xfe] ++ [0x80,0x01,0xe6,0x00,0x00]

theorem downloadFirmware_sends_records_sample :
    downloadFirmware (fun _ => 0) true jumpImage =
        conclude (records.decode (jumpImage.drop 8)).2
          (issue (fun _ => 0) [] (cpuStopWrite::transfers (records.decode (jumpImage.drop 8)))) ∧
      downloadFirmware (fun _ => 0) true jumpImage =
        (0,[cpuStopWrite,⟨0xa0,0x0000,0,[0x02,0x09,0x3f]⟩,⟨0xa0,0x093f,0,[0x80,0xfe]⟩,cpuRunWrite]) ∧
      lastWritten fx2RegCpuReset (downloadFirmware (fun _ => 0) true jumpImage).2 = some 0 := by
  have h := downloadFirmware_sends_records (fun _ => 0) jumpImage (by decide)
  have h0 : downloadFirmware (fun _ => 0) true jumpImage =
      (0,[cpuStopWrite,⟨0xa0,0x0000,0,[0x02,0x09,0x3f]⟩,⟨0xa0,0x093f,0,[0x80,0xfe]⟩,cpuRunWrite]) := by
    decide +kernel
  exact ⟨h.1,h0,h.2.2.2 (congrArg Prod.fst h0)⟩

end Download
end AkbPcr20x
