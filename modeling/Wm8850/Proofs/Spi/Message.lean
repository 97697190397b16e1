import Wm8850.Spi.Message

/-! # What the status of a message says

The status comes from the registers that are set up first. A transfer that ends early only adds
fewer bytes to `actual_length`, and the message ends with status 0. `Complete` are the answers of
the hardware with which a transfer does not end early. -/

namespace Wm8850.Spi

open List Nat

variable {hw : Hw} {m : SpiMessage} {k : Nat}

section
variable (hw : Hw)

/-- Both FIFOs are reset in time, from question `k` on. -/
def ResetOk (k : Nat) : Prop := hw.reset k = true ∧ hw.reset (k + 1) = true

/-- The FIFOs are reset before the first byte, and behind each chunk that another byte follows. -/
structure PolledComplete (len : Nat) : Prop where
  first : ResetOk hw 0
  chunks : ∀ j, 32 * (j + 1) < len → ResetOk hw (4 * (j + 1))

/-- The FIFOs are reset, the channels are given and the transfer ends in time. -/
structure DmaComplete (t : SpiTransfer) : Prop where
  first : ResetOk hw 0
  tx : hw.dma 2 = true
  rx : t.rx = true → hw.dma 3 = true
  ends : hw.dma 4 = true

/-- The answers with which all bytes of a transfer are sent. -/
def Complete (m : SpiMessage) (t : SpiTransfer) : Prop :=
  t.len ≠ 0 →
    if m.dmaSupport && m.isDmaMapped && m.dmaEn && decide (t.len > spiFifoSize) then
      DmaComplete hw t
    else PolledComplete hw t.len

end

/-- The register or-ed with a mask is never 0, so the wait for the FIFOs does not fail. -/
theorem spiIsFinish_true {mask : BitVec 32} (hmask : mask ≠ 0) (hw : Hw) (k : Nat) :
    spiIsFinish mask hw k = true := by
  rw [spiIsFinish, decide_eq_true_eq]
  intro h
  exact hmask (BitVec.or_eq_zero_iff.mp h).2

lemma spiTxIsFinish_true (hw : Hw) (k : Nat) : spiTxIsFinish hw k = true :=
  spiIsFinish_true (by decide) hw k

lemma spiRxIsFinish_true (hw : Hw) (k : Nat) : spiRxIsFinish hw k = true :=
  spiIsFinish_true (by decide) hw k

lemma spiResetFifo_of_ok (h : ResetOk hw k) : spiResetFifo hw k = (true, k + 2) := by
  rw [spiResetFifo, if_pos h.1, h.2]

lemma spiResetFifo_of_not_ok (h : ¬ResetOk hw k) : (spiResetFifo hw k).1 = false := by
  rw [spiResetFifo]
  split
  · rename_i hfirst
    exact Bool.eq_false_of_not_eq_true fun hsecond => h ⟨hfirst, hsecond⟩
  · rfl

lemma chunkLoop_le (hw : Hw) (k cnt : Nat) : (chunkLoop hw k cnt).1 ≤ cnt := by
  induction cnt using Nat.strong_induction_on generalizing k with
  | _ cnt ih =>
    unfold chunkLoop
    by_cases hcnt : spiFifoSize ≤ cnt
    · have h32 : 32 ≤ cnt := hcnt
      simp only [if_pos hcnt, spiTxIsFinish_true, spiRxIsFinish_true, Bool.not_true,
        Bool.false_eq_true, if_false]
      split
      · exact (ih (cnt - 32) (by omega) _).trans (sub_le _ _)
      · exact sub_le _ _
    · rw [if_neg hcnt]

/-- The loop comes to its end, or is left with nothing to send, if and only if the FIFOs are reset
behind each chunk that another byte follows. -/
lemma chunkLoop_complete_iff (hw : Hw) (k cnt : Nat) :
    (chunkLoop hw k cnt).2.1 = false ∨ (chunkLoop hw k cnt).1 = 0 ↔
      ∀ j, 32 * (j + 1) < cnt → ResetOk hw (k + 2 + 4 * j) := by
  induction cnt using Nat.strong_induction_on generalizing k with
  | _ cnt ih =>
    unfold chunkLoop
    by_cases hcnt : spiFifoSize ≤ cnt
    · have h32 : 32 ≤ cnt := hcnt
      simp only [if_pos hcnt, spiTxIsFinish_true, spiRxIsFinish_true, Bool.not_true,
        Bool.false_eq_true, if_false]
      by_cases hok : ResetOk hw (k + 2)
      · simp only [spiResetFifo_of_ok hok, if_true]
        rw [show spiFifoSize = 32 from rfl, ih (cnt - 32) (by omega) (k + 2 + 2)]
        constructor
        · intro hrest j hj
          cases j with
          | zero => exact hok
          | succ j =>
            rw [show k + 2 + 4 * (j + 1) = k + 2 + 2 + 2 + 4 * j by omega]
            exact hrest j (by omega)
        · intro hall j hj
          rw [show k + 2 + 2 + 2 + 4 * j = k + 2 + 4 * (j + 1) by omega]
          exact hall (j + 1) (by omega)
      · simp only [spiResetFifo_of_not_ok hok, Bool.false_eq_true, if_false, Bool.true_eq_false,
          false_or]
        rw [show spiFifoSize = 32 from rfl]
        exact ⟨fun hzero j hj => by omega, fun hall => by_contra fun hne => hok (hall 0 (by omega))⟩
    · have hlt : cnt < 32 := Nat.lt_of_not_le hcnt
      rw [if_neg hcnt]
      exact ⟨fun _ j hj => by omega, fun _ => .inl rfl⟩

lemma wmtSpiWriteRead_complete_iff {len : Nat} (hlen : len ≠ 0) :
    (wmtSpiWriteRead hw 0 len).1 = len ↔ PolledComplete hw len := by
  rw [wmtSpiWriteRead]
  by_cases hok : ResetOk hw 0
  · have hiff := chunkLoop_complete_iff hw 2 len
    have hle := chunkLoop_le hw 2 len
    simp only [spiResetFifo_of_ok hok, Bool.not_true, Bool.false_eq_true, if_false,
      spiTxIsFinish_true]
    rw [show PolledComplete hw len ↔ ∀ j, 32 * (j + 1) < len → ResetOk hw (2 + 2 + 4 * j) from
      ⟨fun h j hj => by rw [show 2 + 2 + 4 * j = 4 * (j + 1) by omega]; exact h.chunks j hj,
        fun h => ⟨hok, fun j hj => by
          rw [show 4 * (j + 1) = 2 + 2 + 4 * j by omega]; exact h j hj⟩⟩, ← hiff]
    cases hout : (chunkLoop hw 2 len).2.1 with
    | true =>
      simp only [Nat.zero_add, Bool.true_or, if_true, Bool.true_eq_false, false_or]
      omega
    | false =>
      by_cases hzero : (chunkLoop hw 2 len).1 = 0 <;> simp [hzero]
  · have hnot : ¬PolledComplete hw len := fun h => hok h.first
    simp [spiResetFifo_of_not_ok hok, hnot, hlen.symm]

lemma wmtSpiDmaWriteRead_complete_iff {t : SpiTransfer} (hlen : t.len ≠ 0) :
    (wmtSpiDmaWriteRead hw 0 t).1 = t.len ↔ DmaComplete hw t := by
  rw [wmtSpiDmaWriteRead]
  by_cases hok : ResetOk hw 0
  · have hcomplete : DmaComplete hw t ↔
        hw.dma 2 = true ∧ (t.rx = true → hw.dma 3 = true) ∧ hw.dma 4 = true :=
      ⟨fun h => ⟨h.tx, h.rx, h.ends⟩, fun h => ⟨hok, h.1, h.2.1, h.2.2⟩⟩
    rw [hcomplete, spiResetFifo_of_ok hok]
    cases h2 : hw.dma 2 <;> cases h3 : hw.dma 3 <;> cases h4 : hw.dma 4 <;> cases hrx : t.rx <;>
      simp [h2, h3, h4, hlen.symm]
  · have hnot : ¬DmaComplete hw t := fun h => hok h.first
    simp [spiResetFifo_of_not_ok hok, hnot, hlen.symm]

/-- The bytes of a transfer are reported in full if and only if the hardware answers for all of
them. -/
lemma transferOne_eq_len_iff (t : SpiTransfer) : transferOne hw m t = t.len ↔ Complete hw m t := by
  unfold transferOne Complete
  by_cases hlen : t.len = 0
  · simp [hlen]
  rw [if_neg hlen]
  split
  · exact (wmtSpiDmaWriteRead_complete_iff hlen).trans ⟨fun h _ => h, fun h => h hlen⟩
  · exact (wmtSpiWriteRead_complete_iff hlen).trans ⟨fun h _ => h, fun h => h hlen⟩

lemma transferOne_le (hw : Hw) (m : SpiMessage) (t : SpiTransfer) : transferOne hw m t ≤ t.len := by
  unfold transferOne
  split_ifs
  · exact Nat.zero_le _
  · unfold wmtSpiDmaWriteRead
    dsimp only
    split_ifs <;> first | exact Nat.zero_le _ | exact Nat.le_refl _
  · unfold wmtSpiWriteRead
    dsimp only
    split_ifs <;> first | exact sub_le _ _ | exact Nat.le_refl _

lemma foldl_add_mod (l : List Nat) (n : Nat) :
    l.foldl (fun n c => (n + c) % 2 ^ 32) (n % 2 ^ 32) = (n + l.sum) % 2 ^ 32 := by
  induction l generalizing n with
  | nil => rfl
  | cons c l ih => rw [foldl_cons, mod_add_mod, ih, sum_cons, add_assoc]

lemma forall₂_transferAll (hw : Nat → Hw) (m : SpiMessage) (i : Nat) (ts : List SpiTransfer) :
    Forall₂ (fun t c => c ≤ t.len) ts (transferAll hw m i ts) := by
  induction ts generalizing i with
  | nil => exact .nil
  | cons t ts ih => exact .cons (transferOne_le _ m t) (ih _)

lemma transferAll_eq_iff (hw : Nat → Hw) (m : SpiMessage) (i : Nat) (ts : List SpiTransfer) :
    transferAll hw m i ts = ts.map SpiTransfer.len ↔
      ∀ j (hj : j < ts.length), Complete (hw (i + j)) m ts[j] := by
  induction ts generalizing i with
  | nil => exact ⟨fun _ j hj => absurd hj (Nat.not_lt_zero j), fun _ => rfl⟩
  | cons t ts ih =>
    rw [transferAll, map_cons, cons.injEq, transferOne_eq_len_iff, ih]
    constructor
    · rintro ⟨hfirst, hrest⟩ j hj
      cases j with
      | zero => exact hfirst
      | succ j =>
        rw [show i + (j + 1) = i + 1 + j by omega]
        exact hrest j (lt_of_succ_lt_succ hj)
    · intro hall
      refine ⟨hall 0 (Nat.succ_pos _), fun j hj => ?_⟩
      rw [show i + 1 + j = i + (j + 1) by omega]
      exact hall (j + 1) (succ_lt_succ hj)

/-- Numbers that are not above others have the same sum only if they are the same. -/
theorem sum_eq_iff {ts : List SpiTransfer} {cs : List Nat}
    (h : Forall₂ (fun t c => c ≤ t.len) ts cs) :
    cs.sum ≤ (ts.map SpiTransfer.len).sum ∧
      (cs.sum = (ts.map SpiTransfer.len).sum ↔ cs = ts.map SpiTransfer.len) := by
  induction h with
  | nil => exact ⟨le_refl 0, by simp⟩
  | cons hle _ ih =>
    obtain ⟨hsum, hiff⟩ := ih
    simp only [map_cons, sum_cons, cons.injEq, ← hiff]
    omega

/-- The status of a message is right if and only if the controller could not be set up, or the
lengths fit in a word and the hardware answers for all bytes of each transfer. -/
theorem work_reports_iff (hw : MessageHw) (m : SpiMessage) :
    ((wmtSpiWork hw m).1 = 0 → (wmtSpiWork hw m).2 = (m.transfers.map SpiTransfer.len).sum) ∧
      ((wmtSpiWork hw m).1 ≠ 0 → (wmtSpiWork hw m).1 < 0) ↔
    ¬ResetOk hw.config 0 ∨ (m.transfers.map SpiTransfer.len).sum < 2 ^ 32 ∧
      ∀ i (hi : i < m.transfers.length), Complete (hw.transfer i) m m.transfers[i] := by
  rw [wmtSpiWork]
  by_cases hok : ResetOk hw.config 0
  · have hfold := foldl_add_mod (transferAll hw.transfer m 0 m.transfers) 0
    rw [zero_mod] at hfold
    obtain ⟨hle, hiff⟩ := sum_eq_iff (forall₂_transferAll hw.transfer m 0 m.transfers)
    have hall := transferAll_eq_iff hw.transfer m 0 m.transfers
    simp only [Nat.zero_add] at hall
    simp only [spiResetFifo_of_ok hok, Bool.not_true, Bool.false_eq_true, if_false, true_implies,
      hok,
      not_true, false_or, ← hall, ← hiff]
    omega
  · simp [spiResetFifo_of_not_ok hok, eagain, hok]

/-- The FIFOs are not reset for the transfer, and the message ends with status 0 and no byte. -/
theorem work_reports_nothing :
    wmtSpiWork ⟨⟨fun _ => true, fun _ => 0, fun _ => true⟩,
      fun _ => ⟨fun _ => false, fun _ => 0, fun _ => true⟩⟩
      ⟨[⟨4, false⟩], false, false, false⟩ = (0, 0) := by
  decide +kernel

end Wm8850.Spi
