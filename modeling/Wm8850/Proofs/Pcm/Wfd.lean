import Wm8850.Pcm.Process

/-! # The wireless display's audio buffer is a queue

While every access stays in the buffer, the calls are those of a queue that forgets its oldest bytes
(`Queues`). Nothing keeps them there: the write pointer goes back only when a chunk ends exactly at
the end, and a region is not cut there either. They stay exactly if no chunk and no region goes over
a multiple of the buffer's size in the stream of all bytes (`wfd_calls_queue_iff`). -/

namespace Wm8850.Pcm

open Lib List Nat

variable {b : SndWfdBuffer} {pending src : List (BitVec 8)} {k size p n : Nat}
  {calls : List WfdCall}

/-- The buffer holds the pending bytes, in order, from the read pointer on. -/
structure Queues (b : SndWfdBuffer) (pending : List (BitVec 8)) : Prop where
  length : pending.length = b.valuableSz
  le : b.valuableSz ≤ b.bytes
  rdPtr : b.rdPtr ≤ b.bytes - 1
  wrPtr : b.wrPtr = (b.rdPtr + b.valuableSz) % b.bytes
  holds : RingHolds b.mem b.bytes b.rdPtr pending

lemma queues_getBuf (b : SndWfdBuffer) : Queues (wmtPcmWfdGetBuf b) [] where
  length := rfl
  le := Nat.zero_le _
  rdPtr := Nat.zero_le _
  wrPtr := (zero_mod _).symm
  holds := RingHolds.nil

lemma mod_le_pred (h : size = 0 → k = 0) : k % size ≤ size - 1 := by
  rcases Nat.eq_zero_or_pos size with hz | hpos
  · rw [h hz]
    exact Nat.zero_le _
  · exact le_sub_one_of_lt (mod_lt k hpos)

lemma mod_of_le_pred (h : k ≤ size - 1) : k % size = k := by
  rcases Nat.eq_zero_or_pos size with rfl | hpos
  · exact mod_zero k
  · exact mod_eq_of_lt (by omega)

lemma Queues.wrPtr_le (h : Queues b pending) : b.wrPtr ≤ b.bytes - 1 := by
  have := h.rdPtr
  have := h.le
  rw [h.wrPtr]
  exact mod_le_pred (by omega)

/-! ### The driver -/

lemma wrap_eq (hfit : p + n ≤ size) : (if p + n = size then 0 else p + n) = (p + n) % size := by
  split
  · next heq => rw [heq, mod_self]
  · next hne => rw [mod_eq_of_lt (by omega)]

section
variable (h : Queues b pending)
include h

lemma Queues.update (hfit : src ≠ [] → b.wrPtr + src.length ≤ b.bytes) :
    Queues (wmtPcmWfdUpdate b src)
      ((pending ++ src).drop (pending.length + src.length - b.bytes)) := by
  have hwr := h.wrPtr_le
  have hle := h.le
  have hlen := h.length
  replace hfit : b.wrPtr + src.length ≤ b.bytes := by
    cases src with
    | nil => exact le_trans hwr (sub_le _ _)
    | cons x xs => exact hfit (cons_ne_nil _ _)
  have hptr : (wmtPcmWfdUpdate b src).wrPtr = (b.rdPtr + (b.valuableSz + src.length)) %
      b.bytes := by
    rw [← ring_shift, ← h.wrPtr]
    exact wrap_eq hfit
  have hpush := h.holds.push (ringWrites_store b.mem hfit) (by rw [hlen, h.wrPtr]) (by omega)
  -- In both cases the reader goes on behind the bytes that were pushed out.
  have hrd : (wmtPcmWfdUpdate b src).rdPtr = (b.rdPtr + (pending.length + src.length - b.bytes)) %
      b.bytes := by
    by_cases hfull : b.bytes ≤ b.valuableSz + src.length
    · refine (if_pos hfull).trans (hptr.trans ?_)
      rw [hlen, ← Nat.sub_add_cancel hfull, ← add_assoc, add_mod_right, Nat.add_sub_cancel]
    · refine (if_neg hfull).trans ?_
      rw [Nat.sub_eq_zero_of_le (by omega), add_zero, mod_of_le_pred h.rdPtr]
  have hval : (wmtPcmWfdUpdate b src).valuableSz = min (b.valuableSz + src.length) b.bytes := by
    unfold wmtPcmWfdUpdate
    dsimp only
    split <;> omega
  refine ⟨?_, hval ▸ min_le_right _ _, ?_, ?_, hrd ▸ hpush⟩
  · rw [length_drop, length_append]
    omega
  · have := h.rdPtr
    rw [hrd]
    exact mod_le_pred (by omega)
  rw [hrd, hval, hptr, hlen]
  change _ = _ % b.bytes
  rw [ring_shift]
  by_cases hfull : b.bytes ≤ b.valuableSz + src.length
  · rw [min_eq_right hfull, Nat.sub_add_cancel hfull]
  · rw [min_eq_left (by omega), Nat.sub_eq_zero_of_le (by omega), zero_add]

/-! ### The display -/

lemma Queues.read (hn : n ≤ b.valuableSz) : Queues { b with
        valuableSz := b.valuableSz - n
        rdPtr := if b.bytes ≤ b.rdPtr + n then b.rdPtr + n - b.bytes else b.rdPtr + n }
      (pending.drop n) := by
  have hrdPtr := h.rdPtr
  have hle := h.le
  have hlen := h.length
  have hholds := h.holds
  rw [← take_append_drop n pending, ringHolds_append, length_take, min_eq_left (by omega)] at hholds
  have hrd : (if b.bytes ≤ b.rdPtr + n then b.rdPtr + n - b.bytes else b.rdPtr + n) =
      (b.rdPtr + n) % b.bytes := by
    split
    · next hge => rw [mod_eq_sub_mod hge, mod_of_le_pred (by omega)]
    · next hlt => rw [mod_eq_of_lt (by omega)]
  constructor
  · rw [length_drop, hlen]
  · exact le_trans (sub_le _ _) hle
  · rw [hrd]
    exact mod_le_pred (by omega)
  · rw [hrd, ring_shift, Nat.add_sub_cancel' hn, h.wrPtr]
  · rw [hrd]
    exact hholds.2

lemma Queues.region (hn : n ≤ b.valuableSz) (hfit : n ≠ 0 → b.rdPtr + n ≤ b.bytes) :
    ((range n).map fun i => b.mem (b.rdPtr + i)) = pending.take n := by
  have hlen := h.length
  refine ext_getElem (by simp only [length_map, length_range, length_take]; omega) ?_
  intro i hi _
  rw [length_map, length_range] at hi
  have hcell := h.holds i (pending[i]) (getElem?_eq_getElem (by omega))
  rw [mod_eq_of_lt (by omega)] at hcell
  rw [getElem_map, getElem_range, getElem_take, hcell]

lemma Queues.getStrm (info : WfdStrmInfo) :
    let availSz := if b.bytes < info.reqSz then 0 else info.reqSz
    let r := wmtPcmWfdGetStrm b info
    Queues r.2 (pending.drop availSz) ∧ ((r.1.availSz ≠ 0 → r.1.bufOffset + r.1.availSz ≤ b.bytes) →
      r.1.region r.2.mem = pending.take availSz) := by
  have hlen := h.length
  intro availSz r
  simp only [r, availSz]
  unfold wmtPcmWfdGetStrm
  by_cases hlarge : b.bytes < info.reqSz
  · rw [if_pos (.inl hlarge), if_pos hlarge]
    exact ⟨h, fun _ => rfl⟩
  rw [if_neg hlarge]
  by_cases hzero : b.valuableSz = 0
  · rw [if_pos (.inr hzero), eq_nil_of_length_eq_zero (hlen.trans hzero), drop_nil, take_nil]
    rw [eq_nil_of_length_eq_zero (hlen.trans hzero)] at h
    exact ⟨h, fun _ => rfl⟩
  rw [if_neg (not_or.mpr ⟨hlarge, hzero⟩)]
  by_cases hmore : info.reqSz < b.valuableSz
  · simp only [if_pos hmore]
    exact ⟨h.read (le_of_lt hmore), h.region (le_of_lt hmore)⟩
  simp only [if_neg hmore]
  have hread := h.read (le_refl _)
  have hregion := h.region (le_refl _)
  rw [Nat.sub_self, drop_eq_nil_of_le (by omega)] at hread
  rw [take_of_length_le (by omega)] at hregion
  rw [drop_eq_nil_of_le (by omega), take_of_length_le (by omega)]
  exact ⟨hread, hregion⟩

end

lemma getStrm_bytes (b : SndWfdBuffer) (info : WfdStrmInfo) :
    (wmtPcmWfdGetStrm b info).2.bytes = b.bytes := by
  unfold wmtPcmWfdGetStrm
  split <;> rfl

/-! ### Sequences of calls -/

/-- While the accesses stay in the buffer, the calls return what the queue gives. -/
theorem returned_eq_queued (h : Queues b pending) (hbounds : InBounds b calls) :
    returned b calls = queued b.bytes pending calls := by
  induction calls generalizing b pending with
  | nil => rfl
  | cons call calls ih =>
    cases call with
    | update src => exact ih (h.update hbounds.1) hbounds.2
    | getStrm info =>
      obtain ⟨hnext, hregion⟩ := h.getStrm info
      refine congrArg₂ _ (hregion hbounds.1) ((ih hnext hbounds.2).trans ?_)
      rw [getStrm_bytes]

/-- The pointers are those of the stream: `total` bytes were written since the start. -/
structure Tracks (b : SndWfdBuffer) (total : Nat) : Prop where
  le : b.valuableSz ≤ total
  wrPtr : b.wrPtr = total % b.bytes
  rdPtr : b.rdPtr = (total - b.valuableSz) % b.bytes

section
variable {total : Nat} (h : Queues b pending) (ht : Tracks b total)
include h ht

lemma Tracks.update (hfit : src ≠ [] → b.wrPtr + src.length ≤ b.bytes) :
    (wmtPcmWfdUpdate b src).valuableSz = min (b.valuableSz + src.length) b.bytes ∧
      Tracks (wmtPcmWfdUpdate b src) (total + src.length) := by
  have hle := ht.le
  have hval := h.le
  have hvaluable : (wmtPcmWfdUpdate b src).valuableSz = min (b.valuableSz + src.length)
      b.bytes := by
    unfold wmtPcmWfdUpdate
    dsimp only
    split <;> omega
  have hin : b.wrPtr + src.length ≤ b.bytes := by
    cases src with
    | nil => exact le_trans h.wrPtr_le (sub_le _ _)
    | cons x xs => exact hfit (cons_ne_nil _ _)
  have hwr : (wmtPcmWfdUpdate b src).wrPtr = (total + src.length) % b.bytes := by
    refine (wrap_eq hin).trans ?_
    rw [ht.wrPtr, mod_add_mod]
  refine ⟨hvaluable, by omega, hwr, ?_⟩
  rw [hvaluable]
  by_cases hfull : b.bytes ≤ b.valuableSz + src.length
  · refine ((if_pos hfull).trans hwr).trans ?_
    rw [min_eq_right hfull]
    exact (mod_eq_sub_mod (by omega)).trans rfl
  · refine (if_neg hfull).trans (ht.rdPtr.trans ?_)
    rw [min_eq_left (by omega), Nat.add_sub_add_right]
    rfl

lemma Tracks.getStrm (info : WfdStrmInfo) :
    let availSz := if b.bytes < info.reqSz then 0 else min info.reqSz b.valuableSz
    let r := wmtPcmWfdGetStrm b info
    (r.1.availSz = availSz ∧ (availSz ≠ 0 → r.1.bufOffset = (total - b.valuableSz) % b.bytes)) ∧
      r.2.valuableSz = b.valuableSz - availSz ∧ Tracks r.2 total := by
  have hle := ht.le
  have hval := h.le
  have hrd := h.rdPtr
  intro availSz r
  simp only [r, availSz]
  unfold wmtPcmWfdGetStrm
  by_cases hlarge : b.bytes < info.reqSz
  · simp only [hlarge, true_or, if_true]
    exact ⟨⟨trivial, fun hne => absurd rfl hne⟩, rfl, ht⟩
  by_cases hzero : b.valuableSz = 0
  · simp only [hzero, hlarge, or_true, if_true, if_false, Nat.min_zero]
    exact ⟨⟨trivial, fun hne => absurd rfl hne⟩, trivial, ht⟩
  rw [if_neg (not_or.mpr ⟨hlarge, hzero⟩), if_neg hlarge]
  have havail : (if info.reqSz < b.valuableSz then info.reqSz else b.valuableSz) =
      min info.reqSz b.valuableSz := by
    split <;> omega
  have hleft : (if info.reqSz < b.valuableSz then b.valuableSz - info.reqSz else 0) =
      b.valuableSz - min info.reqSz b.valuableSz := by
    split <;> omega
  simp only [havail, hleft]
  refine ⟨⟨trivial, fun _ => ht.rdPtr⟩, trivial, by simp only; omega, ht.wrPtr, ?_⟩
  generalize hn : min info.reqSz b.valuableSz = n
  have hnext : total - (b.valuableSz - n) = total - b.valuableSz + n := by omega
  dsimp only
  rw [hnext, ← mod_add_mod, ← ht.rdPtr]
  split
  · next hge => rw [mod_eq_sub_mod hge, mod_of_le_pred (by omega)]
  · next hlt => rw [mod_eq_of_lt (by omega)]

/-- The accesses stay in the buffer exactly if the sizes fit. -/
lemma inBounds_iff : InBounds b calls ↔ SizesFit b.bytes total b.valuableSz calls := by
  induction calls generalizing b pending total with
  | nil => exact Iff.rfl
  | cons call calls ih =>
    cases call with
    | update src =>
      rw [InBounds, SizesFit, ← ht.wrPtr]
      refine and_congr_right fun hfit => ?_
      obtain ⟨hval, hnext⟩ := ht.update h hfit
      rw [← hval]
      exact ih (h.update hfit) hnext
    | getStrm info =>
      obtain ⟨⟨havail, hoffset⟩, hval, hnext⟩ := ht.getStrm h info
      have hrest := ih (h.getStrm info).1 hnext
      rw [getStrm_bytes, hval] at hrest
      rw [InBounds, SizesFit, havail, hrest]
      refine and_congr_left fun _ => forall_congr' fun hne => ?_
      rw [hoffset hne]

end

/-- After `wmt_pcm_wfd_get_buf`, all accesses stay in the buffer and the display reads the bytes of
a queue of the buffer's size, exactly if the sizes of the chunks and requests fit. -/
theorem wfd_calls_queue_iff (b : SndWfdBuffer) (calls : List WfdCall) :
    (InBounds (wmtPcmWfdGetBuf b) calls ∧
      returned (wmtPcmWfdGetBuf b) calls = queued b.bytes [] calls) ↔
      SizesFit b.bytes 0 0 calls := by
  have hstart : Tracks (wmtPcmWfdGetBuf b) 0 := ⟨le_refl 0, (zero_mod _).symm, (zero_mod _).symm⟩
  have hbounds : InBounds (wmtPcmWfdGetBuf b) calls ↔ SizesFit b.bytes 0 0 calls :=
    inBounds_iff (queues_getBuf b) hstart
  rw [← hbounds]
  exact and_iff_left_of_imp (returned_eq_queued (queues_getBuf b))

/-- A buffer of four bytes. -/
def smallBuffer : SndWfdBuffer := ⟨fun _ => 0#8, 4, 0, 0, 0, false⟩

/-- Chunks of three, one, two and two bytes: the reader falls behind, and the first four bytes are
dropped. -/
def droppedCalls : List WfdCall :=
  [.update [1#8, 2#8, 3#8], .update [4#8], .update [5#8, 6#8], .update [7#8, 8#8],
    .getStrm ⟨1, 0, 0⟩, .getStrm ⟨3, 0, 0⟩]

theorem wfd_calls_queue_dropped :
    InBounds (wmtPcmWfdGetBuf smallBuffer) droppedCalls ∧
      returned (wmtPcmWfdGetBuf smallBuffer) droppedCalls = [5#8, 6#8, 7#8, 8#8] := by
  have hfit : SizesFit smallBuffer.bytes 0 0 droppedCalls :=
    ⟨by decide, by decide, by decide, by decide, by decide, by decide, trivial⟩
  obtain ⟨hin, hread⟩ := (wfd_calls_queue_iff smallBuffer droppedCalls).mpr hfit
  exact ⟨hin, hread.trans (by decide)⟩

/-- Chunks of three and two bytes: the second one is written over the end of the buffer. -/
theorem wfd_chunk_past_end : ¬ InBounds (wmtPcmWfdGetBuf smallBuffer)
    [.update [1#8, 2#8, 3#8], .update [4#8, 5#8]] ∧
    (wmtPcmWfdUpdate (wmtPcmWfdUpdate (wmtPcmWfdGetBuf smallBuffer) [1#8, 2#8, 3#8])
      [4#8, 5#8]).mem 4 = 5#8 := by
  refine ⟨fun h => ?_, by decide⟩
  exact absurd (h.2.1 (by decide)) (by decide)

end Wm8850.Pcm
