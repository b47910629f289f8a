import AkbPcr20x.Download

/-! What the download does with an image file that was cut short. The cut can
fall into the file header, into a record header, inside a payload or between two
records; only a cut inside a payload is noticed. -/
namespace AkbPcr20x
namespace Truncation

open FirmwareImage Download

/-- The call fails and the CPU is not started. -/
def Rejected (ctrl : ℕ → ℤ) (kmalloc : Bool) (fw : List Byte) : Prop :=
  (downloadFirmware ctrl kmalloc fw).1 < 0 ∧
    cpuRunWrite ∉ (downloadFirmware ctrl kmalloc fw).2

/-- The first `n` bytes end inside the payload of some record. -/
def CutInPayload (im : Image) (n : ℕ) : Prop :=
  ∃ i ≤ im.records.length,
    8 + size (im.all.take i) + 4 ≤ n ∧ n < 8 + size (im.all.take (i+1))

/-- The CPU stop or a record that is whole in the first `n` bytes fails to transfer. -/
def TransferFails (ctrl : ℕ → ℤ) (im : Image) (n : ℕ) : Prop :=
  ∃ i ≤ im.records.length, 8 + size (im.all.take i) ≤ n ∧ ctrl i < 0

theorem rejected_short (ctrl : ℕ → ℤ) (kmalloc : Bool) {fw : List Byte} (h : fw.length < 13) :
    Rejected ctrl kmalloc fw := by
  simp [Rejected,downloadFirmware,h,Errno.einval]

theorem rejected_nomem (ctrl : ℕ → ℤ) (fw : List Byte) : Rejected ctrl false fw := by
  unfold Rejected downloadFirmware
  split <;> simp [Errno.einval,Errno.enomem]

/-- An image that may start the CPU is rejected exactly when one of the transfers
in front of the CPU run fails. -/
theorem issue_run_iff (ctrl : ℕ → ℤ) (ws : List CtrlWrite) (hw : cpuRunWrite ∉ ws) :
    ((issue ctrl [] (ws ++ [cpuRunWrite])).1 < 0 ∧
      cpuRunWrite ∉ (issue ctrl [] (ws ++ [cpuRunWrite])).2) ↔ ∃ i < ws.length, ctrl i < 0 := by
  rcases issue_cases ctrl [] (ws ++ [cpuRunWrite]) with ⟨hok,he⟩ | ⟨i,hi,hf,hb,he⟩
  · rw [he]
    refine ⟨fun h => absurd h.1 (by simp),?_⟩
    rintro ⟨i,hi,hf⟩
    have hh := hok i (by rw [List.length_append]; omega)
    simp only [List.length_nil,Nat.zero_add] at hh
    omega
  · simp only [List.length_nil,Nat.zero_add] at hf hb he
    rw [List.length_append,List.length_singleton] at hi
    rw [he]
    simp only [List.nil_append]
    by_cases hl : i < ws.length
    · refine ⟨fun _ => ⟨i,hl,hf⟩,fun _ => ⟨hf,?_⟩⟩
      rw [List.take_append_of_le_length (by omega)]
      exact fun hm => hw (List.mem_of_mem_take hm)
    · constructor
      · rintro ⟨_,hn⟩
        rw [List.take_of_length_le (by rw [List.length_append,List.length_singleton]; omega)] at hn
        simp at hn
      · rintro ⟨j,hj,hjf⟩
        have hh := hb j (by omega)
        omega

theorem conclude_truncated (ctrl : ℕ → ℤ) (ws : List CtrlWrite) (hw : cpuRunWrite ∉ ws) :
    (conclude .truncated (issue ctrl [] ws)).1 < 0 ∧
      cpuRunWrite ∉ (conclude .truncated (issue ctrl [] ws)).2 := by
  rcases issue_cases ctrl [] ws with ⟨_,he⟩ | ⟨i,_,hf,_,he⟩
  · rw [he]
    exact ⟨by simp [conclude,verdict,Errno.einval],by simpa [conclude] using hw⟩
  · rw [he]
    simp only [conclude,hf,if_true,List.nil_append]
    exact ⟨trivial,fun hm => hw (List.mem_of_mem_take hm)⟩

/-- The first `n` bytes hold the records in front of the `k`-th one whole, and the cut
falls into the `k`-th one. -/
structure CutIn (im : Image) (n k : ℕ) : Prop where
  le : k ≤ im.records.length
  whole : 8 + size (im.all.take k) ≤ n
  cut : n < 8 + size (im.all.take (k+1))

theorem CutIn.le_of_whole {im : Image} {n k i : ℕ} (h : CutIn im n k)
    (hi : 8 + size (im.all.take i) ≤ n) : i ≤ k := by
  by_contra hik
  have hmono := size_take_mono im.all (show k+1 ≤ i by omega)
  have hcut := h.cut
  omega

theorem CutIn.transferFails_iff {im : Image} {n k : ℕ} (h : CutIn im n k) (ctrl : ℕ → ℤ) :
    TransferFails ctrl im n ↔ ∃ i < k+1, ctrl i < 0 := by
  constructor
  · rintro ⟨i,_,hi,hf⟩
    exact ⟨i,Nat.lt_succ_of_le (h.le_of_whole hi),hf⟩
  · rintro ⟨i,hi,hf⟩
    have hmono := size_take_mono im.all (Nat.le_of_lt_succ hi)
    exact ⟨i,(Nat.le_of_lt_succ hi).trans h.le,(Nat.add_le_add_left hmono 8).trans h.whole,hf⟩

theorem CutIn.cutInPayload_iff {im : Image} {n k : ℕ} (h : CutIn im n k) :
    CutInPayload im n ↔ ¬ n < 8 + size (im.all.take k) + 4 := by
  constructor
  · rintro ⟨i,_,hi,hi'⟩
    have hik : i ≤ k := h.le_of_whole (by omega)
    have hki : k ≤ i := by
      by_contra hlt
      have hmono := size_take_mono im.all (show i+1 ≤ k by omega)
      have hwhole := h.whole
      omega
    obtain rfl : i = k := le_antisymm hik hki
    omega
  · intro hn
    exact ⟨k,h.le,Nat.le_of_not_lt hn,h.cut⟩

/-- A cut image decodes to the records that are whole in it. -/
theorem exists_cutIn (im : Image) {n : ℕ} (h8 : 8 ≤ n) (hn : n < im.bytes.length) :
    ∃ k, CutIn im n k ∧ records.decode ((im.bytes.take n).drop 8) =
      (im.records.take k,if n < 8 + size (im.all.take k) + 4 then .exhausted else .truncated) := by
  rw [im.bytes_length] at hn
  have hdrop : (im.bytes.take n).drop 8 = (im.all.flatMap Record.encode).take (n-8) := by
    rw [List.drop_take,Image.bytes,List.drop_left' im.header_length]
  have hm : n-8 < size im.all := by omega
  obtain ⟨k,hk,h₁,h₂,hd⟩ := decode_take im.records im.records_open im.last hm
  rw [← Image.all] at h₁ h₂ hd
  refine ⟨k,⟨hk,by omega,by omega⟩,?_⟩
  rw [hdrop,hd]
  congr 2
  rw [eq_iff_iff]
  omega

theorem not_mem_writes {im : Image} (hrun : ∀ r ∈ im.records, recordWrite r ≠ cpuRunWrite)
    (k : ℕ) : cpuRunWrite ∉ cpuStopWrite::(im.records.take k).map recordWrite := by
  intro hm
  rcases List.mem_cons.mp hm with hm | hm
  · exact absurd hm (by decide)
  · obtain ⟨r,hr,he⟩ := List.mem_map.mp hm
    exact hrun r (List.mem_of_mem_take hr) he

/-- A cut image is rejected exactly when it is shorter than the smallest image, it
cannot be copied, a transfer fails before the walk ends, or the cut falls inside
a payload. -/
theorem truncated_rejected_iff (ctrl : ℕ → ℤ) (kmalloc : Bool) (im : Image)
    (hrun : ∀ r ∈ im.records, recordWrite r ≠ cpuRunWrite) {n : ℕ} (hn : n < im.bytes.length) :
    Rejected ctrl kmalloc (im.bytes.take n) ↔
      n < 13 ∨ kmalloc = false ∨ TransferFails ctrl im n ∨ CutInPayload im n := by
  have hlen : (im.bytes.take n).length = n := by
    rw [List.length_take]
    omega
  by_cases hs : n < 13
  · simp only [hs,true_or,iff_true]
    exact rejected_short ctrl kmalloc (by omega)
  cases kmalloc with
  | false => simp [rejected_nomem]
  | true =>
    obtain ⟨k,hk,hd⟩ := exists_cutIn im (by omega) hn
    let ws := cpuStopWrite::(im.records.take k).map recordWrite
    have hws : cpuRunWrite ∉ ws := not_mem_writes hrun k
    have hwl : ws.length = k+1 := by
      have hle := hk.le
      simp only [ws,List.length_cons,List.length_map,List.length_take]
      omega
    rw [Rejected,downloadFirmware_eq ctrl _ (by omega),hd,hk.transferFails_iff,hk.cutInPayload_iff]
    by_cases hc : n < 8 + size (im.all.take k) + 4
    · -- the walk ends as if the image were complete
      have ht : cpuStopWrite::transfers (im.records.take k,Stop.exhausted) =
          ws ++ [cpuRunWrite] := by
        simp [transfers,sentRecords,closing,ws]
      simp only [if_pos hc,ht]
      rw [conclude_zero rfl _ (issue_nonpos ..),issue_run_iff ctrl ws hws,hwl]
      simp [hs,hc]
    · have ht : cpuStopWrite::transfers (im.records.take k,Stop.truncated) = ws := by
        simp [transfers,sentRecords,closing,ws]
      simp only [if_neg hc,ht]
      exact iff_of_true (conclude_truncated ctrl ws hws) (Or.inr (Or.inr (Or.inr hc)))

/-- The smallest shape of a real image: one program record and the CPU start. -/
def sampleImage : Image where
  header := [0xc2,0x47,0x05,0x31,0x21,0x00,0x00,0x04]
  records := [⟨false,0x0000,[0x02,0x09,0x3f],by decide⟩]
  last := ⟨true,0xe600,[0x00],by decide⟩
  header_length := rfl
  records_open := by simp
  last_end := rfl

theorem sampleImage_noRun : ∀ r ∈ sampleImage.records, recordWrite r ≠ cpuRunWrite := by
  simp [sampleImage,recordWrite,cpuRunWrite]

theorem truncated_rejected_sample :
    Rejected (fun _ => 0) true (sampleImage.bytes.take 13) ↔
      13 < 13 ∨ true = false ∨ TransferFails (fun _ => 0) sampleImage 13 ∨
        CutInPayload sampleImage 13 :=
  truncated_rejected_iff (fun _ => 0) true sampleImage sampleImage_noRun (by decide)

/-- Cut on the record boundary in front of the closing record: the program is
loaded, the CPU is started and the call succeeds. -/
theorem truncated_accepted_sample :
    (∀ r ∈ sampleImage.records, r.value ≠ fx2RegCpuReset) ∧
      15 < sampleImage.bytes.length ∧
      downloadFirmware (fun _ => 0) true (sampleImage.bytes.take 15) =
        (0,[cpuStopWrite,⟨fx2ReqFirmwareDownload,0x0000,0,[0x02,0x09,0x3f]⟩,cpuRunWrite]) ∧
      ¬ Rejected (fun _ => 0) true (sampleImage.bytes.take 15) := by
  have h : downloadFirmware (fun _ => 0) true (sampleImage.bytes.take 15) =
      (0,[cpuStopWrite,⟨fx2ReqFirmwareDownload,0x0000,0,[0x02,0x09,0x3f]⟩,cpuRunWrite]) := by
    decide
  refine ⟨by simp [sampleImage,fx2RegCpuReset],by decide,h,fun hr => ?_⟩
  rw [Rejected,h] at hr
  exact absurd hr.1 (by decide)

end Truncation
end AkbPcr20x
