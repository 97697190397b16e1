import Wm8850.Edid.Parse
import Mathlib.Data.Fintype.Pi

/-! # Which monitors the parser survives

The parser checks no length that it takes from the monitor. `EdidFits` is what a monitor with the
header of the first version has to send: detailed timings with a size, data blocks that end in the
buffer with all the fields they announce, video codes with a bit in `cea_vic`, and no more timings
than `cea_timing` has places. `AtBlock` are the places where the parser looks for a data block,
`AtStructure` the 3D structures that it reads, `AtTiming` the timings. -/

namespace Wm8850.Edid

open Lib List Nat Relation

variable {i base len block n dtd index stop : Nat}

section
variable (edid : Bytes)

/-- A byte as a number. -/
def val (i : Nat) : Nat := (edid i).toNat

/-- The buffer has the bytes `bs` from `base` on. -/
def StartsWith (base : Nat) (bs : List Nat) : Prop :=
  ∀ i (hi : i < bs.length), val edid (base + i) = bs[i]

/-- The sum of the `len` bytes from `base` on. -/
def sumAt (base len : Nat) : Nat := ((range len).map fun i => val edid (base + i)).sum

/-- The sizes in the descriptor at `dtd`. -/
def sizesAt (dtd : Nat) : Sizes where
  hactive := combineHi8Lo (upperNibble (val edid (dtd + 4))) (val edid (dtd + 2))
  hblanking := combineHi8Lo (lowerNibble (val edid (dtd + 4))) (val edid (dtd + 3))
  vactive := combineHi8Lo (upperNibble (val edid (dtd + 7))) (val edid (dtd + 5))
  vblanking := combineHi8Lo (lowerNibble (val edid (dtd + 7))) (val edid (dtd + 6))

/-- A descriptor that does not start with two zeros is a detailed timing. -/
def IsDetailed (dtd : Nat) : Prop := ¬(val edid dtd = 0 ∧ val edid (dtd + 1) = 0)

/-- The number of pixels in a line and of lines in a frame, as far as the parser divides by them. -/
structure DescriptorFits (dtd : Nat) : Prop where
  htotal : (sizesAt edid dtd).hactive + (sizesAt edid dtd).hblanking ≠ 0
  vactive : (sizesAt edid dtd).vactive ≠ 0

/-- The 3D structures that are read from `start` on: one byte, or two for the types from 8 on. -/
def AtStructure (block stop start : Nat) : Nat → Prop :=
  ReflTransGen (fun i j => i < stop ∧ j = if val edid (block + i) &&& 0x8 ≠ 0 then i + 2 else i + 1)
    start

/-- The structure at `i` ends in the buffer. -/
structure StructureFits (block i : Nat) : Prop where
  head : block + i < 512
  detail : val edid (block + i) &&& 0x8 ≠ 0 → block + (i + 1) < 512

/-- The number of bytes that hold the structures and the mask for all video codes. -/
def allLength (present : Nat) : Nat :=
  if present &&& 0x60 = 0x40 then 4 else if present &&& 0x60 = 0x20 then 2 else 0

/-- The 3D part of the fields, which start with the bytes `present` and `lens`. -/
structure Fields3dFit (block start present lens : Nat) : Prop where
  all : allLength present ≠ 0 → block + start + allLength present ≤ 512
  structures : ∀ i, AtStructure edid block (lens + start) (start + allLength present) i →
    i < lens + start → StructureFits edid block i

/-- The HDMI video fields at `index` of a data block. -/
structure VideoFieldsFit (block index : Nat) : Prop where
  lens : block + (index + 1) < 512
  fields3d : val edid (block + (index + 1)) &&& 0x1F ≠ 0 →
    Fields3dFit edid block (index + 2 + ((val edid (block + (index + 1)) &&& 0xE0) >>> 5))
      (val edid (block + index)) (val edid (block + (index + 1)) &&& 0x1F)

/-- A vendor block of `len` bytes ends in the buffer as far as it is read. -/
structure VendorFits (block len : Nat) : Prop where
  address : 5 ≤ len → block + 5 < 512
  fields : 8 ≤ len → block + 8 < 512
  video : 8 ≤ len → val edid (block + 8) &&& 0x20 ≠ 0 →
    VideoFieldsFit edid block (hdmiVideoIndex (val edid (block + 8)))

/-- The kind of a data block. -/
def blockTag (block : Nat) : Nat := (val edid block &&& 0xE0) >>> 5

/-- A data block ends in the buffer as far as it is read, and its video codes are below 64. -/
structure BlockFits (block : Nat) : Prop where
  head : block < 512
  audio : blockTag edid block = 1 → block + 1 < 512
  video : blockTag edid block = 2 → ∀ i < val edid block &&& 0x1F,
    block + 1 + i < 512 ∧ val edid (block + 1 + i) &&& 0x7F < 64
  vendor : blockTag edid block = 3 → VendorFits edid block (val edid block &&& 0x1F)

/-- The places where a data block is looked for, from the one at `first` on. -/
def AtBlock (stop first : Nat) : Nat → Prop :=
  ReflTransGen (fun b c => c = b + (1 + blockLen (val edid b)) ∧ c < stop) first

/-- A timing of an extension with a pixel clock. -/
def HasClock (p : Nat) : Prop := val edid (p + 1) ≠ 0 ∨ val edid p ≠ 0

/-- Timing `i` of an extension, at `p`, has a place and totals to divide by. -/
structure TimingFits (i p : Nat) : Prop where
  place : i < 6
  htotal : (sizesAt edid p).hactive + (sizesAt edid p).hblanking ≠ 0
  vtotal : (sizesAt edid p).vactive + (sizesAt edid p).vblanking ≠ 0

/-- The `n` timings from `p` on, up to the first one without a pixel clock. -/
def TimingsFit (n i p : Nat) : Prop :=
  ∀ j < n, (∀ l ≤ j, HasClock edid (p + 18 * l)) → TimingFits edid (i + j) (p + 18 * j)

/-- The data blocks and the timings of the extension at `base`. -/
structure CeaFits (base : Nat) : Prop where
  blocks : ∀ block, AtBlock edid (base + val edid (base + 2)) (base + 4) block →
    BlockFits edid block
  timings : TimingsFit edid ((128 - val edid (base + 2)) / 18) 0 (base + val edid (base + 2))

/-- The extension at `base` is one that is parsed: its tag, its version and its checksum. -/
structure IsCea (base : Nat) : Prop where
  tag : StartsWith edid base [0x2, 0x3]
  checksum : sumAt edid base 128 % 256 = 0

/-- What a monitor may send. -/
structure EdidFits : Prop where
  descriptors : ∀ i < 4, IsDetailed edid (descriptorAt i) → DescriptorFits edid (descriptorAt i)
  extensions : ∀ k < 4, 1 ≤ k → k ≤ val edid 0x7E → IsCea edid (128 * k) → CeaFits edid (128 * k)

end

variable {edid : Bytes} {info : EdidInfo} {α : Type} {b lo : Nat} {P : α → Prop}

/-- The computation gives some value. -/
abbrev Succeeds {α : Type} (x : Checked α) : Prop := Ensures x fun _ => True

lemma ensures_byte {f : Nat → Checked α} (hi : i < 512)
    (hf : Ensures (f (val edid i)) P) : Ensures (byteAt edid i >>= f) P := by
  refine (ensures_readAt hi).bind ?_
  rintro _ rfl
  exact hf

/-- A read inside the buffer adds no condition. -/
lemma settles_byte {f : Nat → Checked α} {C : Prop} (hi : i < 512)
    (hf : Settles (f (val edid i)) C P) : Settles (byteAt edid i >>= f) C P := by
  refine (ensures_readAt hi).then_settles ?_
  rintro _ rfl
  exact hf

/-- Another read has to be implied by the condition, which may use it from there on. -/
lemma settles_byteAt {f : Nat → Checked α} {C : Prop} (hC : C → i < 512)
    (hf : i < 512 → Settles (f (val edid i)) C P) : Settles (byteAt edid i >>= f) C P := by
  refine settles_readAt.bind hC fun hi => ?_
  rintro _ rfl
  exact hf hi

lemma succeeds_pure {a : α} : Succeeds (pure a) := ensures_pure trivial

/-! ### The first block -/

lemma ensures_sameBytes {bs : List Nat} (h : base + bs.length ≤ 512) :
    Ensures (sameBytes edid base bs) (fun r => r = true ↔ StartsWith edid base bs) := by
  induction bs generalizing base with
  | nil => exact ensures_pure (by simp [StartsWith])
  | cons b bs ih =>
    rw [length_cons] at h
    refine ensures_byte (by omega) ?_
    split
    · rename_i hb
      have hrest : base + 1 + bs.length ≤ 512 := by omega
      refine (ih hrest).mono fun r hr => hr.trans ⟨fun hall i hi => ?_, fun hall i hi => ?_⟩
      · cases i with
        | zero => exact hb
        | succ i =>
          rw [getElem_cons_succ, ← hall i (lt_of_succ_lt_succ hi)]
          congr 1
          omega
      have htail := hall (i + 1) (succ_lt_succ hi)
      rw [getElem_cons_succ] at htail
      rw [← htail]
      congr 1
      omega
    · rename_i hb
      exact ensures_pure ⟨fun h => absurd h (by decide), fun h => absurd (h 0 (succ_pos _)) hb⟩

lemma ensures_sumBytes (h : base + len ≤ 512) :
    Ensures (sumBytes edid base len) (fun r => r = sumAt edid base len % 256) := by
  have hrun := settles_foldlM_range (n := len) (C := fun _ => True)
    (P := fun i sum => sum = sumAt edid base i % 256)
    (f := fun sum i => do
      let b ← byteAt edid (base + i)
      pure ((sum + b) % 256)) (a := 0) rfl fun i hi sum hsum =>
    settles_byte (by omega) (settles_pure trivial (by
      rw [sumAt, range_succ, map_append, List.sum_append_nat, map_singleton, List.sum_singleton,
        ← sumAt, hsum,
        Nat.mod_add_mod]))
  exact hrun.ensures fun _ _ => trivial

lemma ensures_edidChecksum (h : base + len ≤ 512) (hlen : 8 < len) :
    Ensures (edidChecksum edid base len) (fun r => StartsWith edid base edidV1Header → r = 0) := by
  refine (ensures_sumBytes h).bind fun checksum _ => ?_
  rw [if_pos hlen]
  refine (ensures_sameBytes (by simp [edidV1Header]; omega)).bind fun same hsame => ?_
  split
  · exact ensures_pure fun _ => rfl
  · rename_i hnot
    exact ensures_pure fun hheader => absurd (hsame.mpr hheader) hnot

lemma ensures_blockType (h : block + 4 ≤ 512) : Ensures (blockType edid block)
    (fun type => type = detailedTimingBlock ↔ IsDetailed edid block) := by
  have hzeros : StartsWith edid block [0x00, 0x00] ↔ ¬IsDetailed edid block := by
    rw [IsDetailed, not_not]
    refine ⟨fun hall => ⟨hall 0 (by decide), hall 1 (by decide)⟩, fun hzero i hi => ?_⟩
    obtain rfl | rfl : i = 0 ∨ i = 1 := by simp at hi; omega
    · exact hzero.1
    · exact hzero.2
  refine (ensures_sameBytes (by simp; omega)).bind fun same hsame => ?_
  split
  · rename_i hyes
    have hnot : ¬IsDetailed edid block := hzeros.mp (hsame.mp hyes)
    refine ensures_byte (by omega) ?_
    split
    · exact ensures_pure ⟨fun htype => absurd htype (by decide), fun hdet => absurd hdet hnot⟩
    · refine ensures_byte (by omega) (ensures_pure ⟨fun htype => ?_, fun hdet => absurd hdet hnot⟩)
      rw [detailedTimingBlock] at htype
      omega
  · rename_i hno
    have hdet : IsDetailed edid block := not_not.mp fun hnot => hno (hsame.mpr (hzeros.mpr hnot))
    exact ensures_pure ⟨fun _ => hdet, fun _ => rfl⟩

lemma succeeds_getMonitorName {ptr : Nat} (h : ptr + n ≤ 512) :
    Succeeds (getMonitorName edid n ptr) := by
  induction n generalizing ptr with
  | zero => exact succeeds_pure
  | succ n ih =>
    refine ensures_byte (by omega) ?_
    split
    · exact succeeds_pure
    · exact (ih (by omega)).bind fun rest _ => succeeds_pure

lemma succeeds_identify {sign l : List Nat} (h : ∀ i ∈ l, i < 4) :
    Succeeds (identify edid sign l) := by
  induction l with
  | nil => exact ensures_byte (by decide) (ensures_byte (by decide) succeeds_pure)
  | cons i rest ih =>
    have hi : i < 4 := h i mem_cons_self
    refine (ensures_blockType (by simp only [descriptorAt]; omega)).bind fun type _ => ?_
    split
    · exact succeeds_getMonitorName (by simp only [descriptorAt]; omega)
    · exact ih fun j hj => h j (mem_cons_of_mem _ hj)

lemma ensures_getStandardTiming (h : i + n ≤ 8) : Ensures (getStandardTiming edid n i info)
    (fun info' => info'.detailTiming = info.detailTiming) := by
  induction n generalizing i info with
  | zero => exact ensures_pure rfl
  | succ n ih =>
    refine ensures_byte (by omega) ?_
    refine ensures_byte (by omega) ?_
    split
    · exact ensures_pure rfl
    · exact (ensures_storeAt (by omega)).bind fun standardTiming _ => ih (by omega)

lemma ensures_readSizes (h : dtd + 18 ≤ 512) :
    Ensures (readSizes edid dtd) (fun s => s = sizesAt edid dtd) := by
  iterate 6 refine ensures_byte (by omega) ?_
  exact ensures_pure rfl

/-- The timing that is stored for the descriptor at `dtd`. -/
def timingAt (edid : Bytes) (dtd : Nat) (option : BitVec 32) : VppTiming :=
  let b11 := val edid (dtd + 11)
  let hsyncOffset := combineHi4Lo ((b11 &&& 0xC0) >>> 6) (val edid (dtd + 8))
  let hsyncWidth := combineHi4Lo ((b11 &&& 0x30) >>> 4) (val edid (dtd + 9))
  let vsyncOffset := combineHi4Lo ((b11 &&& 0x0C) >>> 2) (upperNibble (val edid (dtd + 10)))
  let vsyncWidth := combineHi4Lo (b11 &&& 0x03) (lowerNibble (val edid (dtd + 10)))
  { pixelClock := combineHi8Lo (val edid (dtd + 1)) (val edid dtd) * 10000
    option := option
    hfp := hsyncOffset
    hsync := hsyncWidth
    hpixel := (sizesAt edid dtd).hactive
    hbp := wsub (sizesAt edid dtd).hblanking (hsyncWidth + hsyncOffset)
    vfp := vsyncOffset
    vsync := vsyncWidth
    vpixel := (sizesAt edid dtd).vactive
    vbp := wsub (sizesAt edid dtd).vblanking (vsyncWidth + vsyncOffset) }

lemma ensures_storeDetail {slot : Fin 4} (h : dtd + 18 ≤ 512) :
    Ensures (storeDetail edid dtd (sizesAt edid dtd) slot info) (fun info' => info'.detailTiming =
      Function.update info.detailTiming slot
        (timingAt edid dtd (info.detailTiming slot).option)) := by
  iterate 6 refine ensures_byte (by omega) ?_
  exact ensures_pure rfl

/-- Behind the stores the parser divides by the totals and by the active lines. It changes only the
option of the timing. -/
lemma settles_rateDetail {slot : Fin 4} {s : Sizes} (h : dtd + 18 ≤ 512) :
    Settles (rateDetail edid dtd s slot info) (s.hactive + s.hblanking ≠ 0 ∧ s.vactive ≠ 0)
      (fun info' => ∃ option, info'.detailTiming =
        Function.update info.detailTiming slot { info.detailTiming slot with option }) := by
  refine settles_divideBy.bind (fun h => Nat.mul_ne_zero (by omega) h.1) fun hdiv fps _ => ?_
  refine settles_byte (by omega) ?_
  have hratio : Settles (voutCheckRatio169 s.hactive s.vactive) (s.vactive ≠ 0) fun _ => True :=
    settles_divideBy.bind id fun hv val _ => settles_pure hv trivial
  refine hratio.bind (fun h => h.2) fun hv wide _ => ?_
  exact settles_pure ⟨fun hzero => hdiv (by rw [hzero, Nat.mul_zero]), hv⟩ ⟨_, rfl⟩

/-- The slots from `i` on are free. -/
def FreeFrom (i : Nat) (info : EdidInfo) : Prop :=
  ∀ slot : Fin 4, i ≤ slot.val → (info.detailTiming slot).pixelClock = 0

lemma exists_freeSlot (hfree : FreeFrom i info) (hi : i < 4) :
    ∃ slot, freeSlot info = some slot ∧ slot.val ≤ i := by
  have hfirst : ∀ p : Fin 4 → Bool, ∀ k, p k = true →
      ∃ slot, (finRange 4).find? p = some slot ∧ slot.val ≤ k.val := by decide +kernel
  exact hfirst _ ⟨i, hi⟩ (decide_eq_true (hfree ⟨i, hi⟩ le_rfl))

/-- A descriptor takes one slot. -/
lemma settles_parseTimingDescription (h : dtd + 18 ≤ 512) (hi : i < 4) (hfree : FreeFrom i info) :
    Settles (parseTimingDescription edid dtd info) (DescriptorFits edid dtd)
      (FreeFrom (i + 1)) := by
  refine (ensures_readSizes h).then_settles ?_
  rintro _ rfl
  obtain ⟨slot, hslot, hle⟩ := exists_freeSlot hfree hi
  rw [hslot]
  refine (ensures_storeDetail h).then_settles fun stored hstored => ?_
  refine ((settles_rateDetail h).congr ⟨fun hC => ⟨hC.1, hC.2⟩, fun hC => ⟨hC.1, hC.2⟩⟩).mono ?_
  rintro info' ⟨option, hinfo⟩ other hother
  have hne : other ≠ slot := by
    rintro rfl
    omega
  rw [hinfo, Function.update_of_ne hne, hstored, Function.update_of_ne hne]
  exact hfree other (by omega)

/-- The first block is parsed without a fault if it has no header or all its timings have sizes. -/
lemma settles_edidParseV1 (hfree : FreeFrom 0 info) : Settles (edidParseV1 edid info)
    (StartsWith edid 0 edidV1Header →
      ∀ i < 4, IsDetailed edid (descriptorAt i) → DescriptorFits edid (descriptorAt i))
    (fun r => r.1 = 0 ↔ StartsWith edid 0 edidV1Header) := by
  refine (ensures_edidChecksum (by decide) (by decide)).then_settles fun checksum hchecksum => ?_
  by_cases hheader : StartsWith edid 0 edidV1Header
  · rw [if_neg (not_not.mpr (hchecksum hheader))]
    refine (ensures_sameBytes (by decide)).then_settles fun same hsame => ?_
    rw [if_pos (hsame.mpr hheader)]
    have hin : ∀ i < 4, descriptorAt i + 18 ≤ 512 := by decide
    have hsign : Succeeds (getVendorSign edid 0x08) :=
      ensures_byte (by decide) (ensures_byte (by decide) succeeds_pure)
    refine hsign.then_settles fun sign _ => ?_
    refine (succeeds_identify fun i hi => mem_range.mp hi).then_settles fun _ _ => ?_
    refine settles_byte (by decide) ?_
    have hestablished : Ensures (getEstablishedTiming edid info)
        (fun info' => info'.detailTiming = info.detailTiming) :=
      ensures_byte (by decide) (ensures_byte (by decide) (ensures_pure rfl))
    refine hestablished.then_settles fun info₀ hinfo₀ => ?_
    refine (ensures_getStandardTiming (by decide)).then_settles fun info₁ hinfo₁ => ?_
    -- the loop over the limits
    have hlimits : Ensures _ (fun info₂ : EdidInfo => info₂.detailTiming = info.detailTiming) :=
      ensures_foldlM (l := range 4) (f := fun info i => do
        let type ← blockType edid (descriptorAt i)
        if type = monitorLimits then parseMonitorLimits edid (descriptorAt i) info
        else pure info) (hinfo₁.trans hinfo₀) fun info' i hi hinfo' => by
      have hi' := hin i (mem_range.mp hi)
      refine (ensures_blockType (by omega)).bind fun type _ => ?_
      split
      · refine ensures_byte (by omega) ?_
        split
        · exact ensures_pure hinfo'
        · exact ensures_pure hinfo'
      · exact ensures_pure hinfo'
    refine hlimits.then_settles fun info₂ hinfo₂ => ?_
    -- the loop over the detailed timings
    have hstart : FreeFrom 0 info₂ := by
      rw [FreeFrom, hinfo₂]
      exact hfree
    refine Settles.bind (settles_foldlM_range (P := FreeFrom) hstart fun i hi info' hinfo' => ?_)
      (fun h => h hheader) fun hall info' _ =>
        settles_pure (fun _ => hall) ⟨fun _ => hheader, fun _ => rfl⟩
    have hi' := hin i hi
    refine (ensures_blockType (by omega)).then_settles fun type htype => ?_
    split
    · rename_i hdetailed
      exact (settles_parseTimingDescription hi' hi hinfo').congr
        ⟨fun h _ => h, fun h => h (htype.mp hdetailed)⟩
    · rename_i hother
      exact settles_pure (fun hdetailed => absurd (htype.mpr hdetailed) hother)
        fun slot hslot => hinfo' slot (by omega)
  · have hfail : ∀ D, Settles (pure (-1, info)) (StartsWith edid 0 edidV1Header → D)
        (fun r : Int × EdidInfo => r.1 = 0 ↔ StartsWith edid 0 edidV1Header) :=
      fun D => settles_pure (fun h => absurd h hheader)
        ⟨fun h => absurd h (show (-1 : Int) ≠ 0 by decide), fun h => absurd h hheader⟩
    split
    · exact hfail _
    refine (ensures_sameBytes (by decide)).then_settles fun same hsame => ?_
    rw [if_neg fun h => hheader (hsame.mp h)]
    exact hfail _

/-! ### The extension blocks -/

lemma settles_videoBlock {p : Nat} : Settles (videoBlock edid n p info)
    (∀ i < n, p + i < 512 ∧ val edid (p + i) &&& 0x7F < 64) fun _ => True := by
  induction n generalizing p info with
  | zero => exact settles_pure (fun i hi => absurd hi (not_lt_zero i)) trivial
  | succ n ih =>
    refine settles_byteAt (fun h => (h 0 (succ_pos n)).1) fun hin => ?_
    refine settles_storeAt.bind (fun h => Nat.div_lt_of_lt_mul (h 0 (succ_pos n)).2)
      fun hvic ceaVic _ => ih.congr ⟨fun h i hi => ?_, fun h i hi => ?_⟩
    · cases i with
      | zero => exact ⟨hin, (Nat.div_lt_iff_lt_mul (by decide)).mp hvic⟩
      | succ i =>
        rw [Nat.add_comm i 1, ← Nat.add_assoc]
        exact h i (lt_of_succ_lt_succ hi)
    · rw [Nat.add_assoc, Nat.add_comm 1 i]
      exact h (i + 1) (succ_lt_succ hi)

/-- The structures are read without a fault if each of them ends in the buffer. -/
lemma settles_structures3d : Settles (structures3d edid block index stop)
    (∀ i, AtStructure edid block stop index i → i < stop → StructureFits edid block i)
    fun _ => True := by
  induction hn : stop - index using Nat.strong_induction_on generalizing index with
  | _ n ih =>
    have hwalk := forall_reflTransGen_iff (a := index)
      (p := fun i => i < stop → StructureFits edid block i)
      (r := fun i j => i < stop ∧ j = if val edid (block + i) &&& 0x8 ≠ 0 then i + 2 else i + 1)
    rw [structures3d]
    split
    · rename_i hlt
      refine settles_byteAt (fun h => (h index .refl hlt).head) fun hhead => ?_
      split
      · rename_i hbit
        refine settles_byteAt (fun h => (h index .refl hlt).detail hbit) fun hdetail => ?_
        refine (ih (stop - (index + 2)) (by omega) rfl).congr (Iff.trans ?_ hwalk.symm)
        simp only [hlt, hbit, true_and, forall_eq, ne_eq, not_false_eq_true, if_true]
        exact ⟨fun h => ⟨fun _ => ⟨hhead, fun _ => hdetail⟩, h⟩, fun h => h.2⟩
      · rename_i hbit
        refine (ih (stop - (index + 1)) (by omega) rfl).congr (Iff.trans ?_ hwalk.symm)
        simp only [hlt, hbit, true_and, forall_eq, if_false]
        exact ⟨fun h => ⟨fun _ => ⟨hhead, fun hn => absurd hn hbit⟩, h⟩, fun h => h.2⟩
    · rename_i hle
      exact settles_pure (hwalk.mpr ⟨fun hlt => absurd hlt hle, fun j hj => absurd hj.1 hle⟩)
        trivial

lemma settles_allStructures3d {present : Nat} : Settles (allStructures3d edid block index present)
    (allLength present ≠ 0 → block + index + allLength present ≤ 512)
    (fun next => next = index + allLength present) := by
  rw [allStructures3d, allLength]
  split
  · iterate 4 refine settles_byteAt (by omega) fun _ => ?_
    exact settles_pure (by omega) rfl
  split
  · iterate 2 refine settles_byteAt (by omega) fun _ => ?_
    exact settles_pure (by omega) rfl
  · exact settles_pure (by omega) rfl

lemma settles_hdmiVideo :
    Settles (hdmiVideo edid block index) (VideoFieldsFit edid block index) fun _ => True := by
  refine settles_byteAt (fun h => by have := h.lens; omega) fun _ => ?_
  refine settles_byteAt (fun h => h.lens) fun hlens => ?_
  split
  · rename_i hlen
    refine settles_allStructures3d.bind (fun h => (h.fields3d hlen).all) fun hall next hnext => ?_
    rw [hnext]
    exact settles_structures3d.congr
      ⟨fun h => ⟨hlens, fun _ => ⟨hall, h⟩⟩, fun h => (h.fields3d hlen).structures⟩
  · rename_i hlen
    exact settles_pure ⟨hlens, fun h => absurd h hlen⟩ trivial

lemma settles_vendorBlock : Settles (vendorBlock edid block len info)
    (VendorFits edid block len) fun _ => True := by
  rw [vendorBlock]
  split
  · refine settles_pure ⟨fun h => ?_, fun h => ?_, fun h => ?_⟩ trivial <;> omega
  rename_i hlen5
  refine settles_self.bind (fun h => ?_) fun _ hdmi _ => ?_
  · have haddress := h.address (by omega)
    exact (ensures_sameBytes (by simp; omega)).mono fun _ _ => trivial
  refine settles_byteAt (fun h => by have := h.address (by omega); omega) fun _ => ?_
  refine settles_byteAt (fun h => h.address (by omega)) fun haddress => ?_
  by_cases hlen : len < 8
  · rw [if_pos hlen]
    refine settles_pure ⟨fun _ => haddress, fun h => ?_, fun h => ?_⟩ trivial <;> omega
  rw [if_neg hlen]
  refine settles_byteAt (fun h => h.fields (by omega)) fun hfields => ?_
  split
  · rename_i hvideo
    refine settles_hdmiVideo.bind (fun h => h.video (by omega) hvideo) fun hfit _ _ => ?_
    exact settles_pure ⟨fun _ => haddress, fun _ => hfields, fun _ _ => hfit⟩ trivial
  · rename_i hvideo
    exact settles_pure ⟨fun _ => haddress, fun _ => hfields, fun _ h => absurd h hvideo⟩ trivial

lemma settles_dataBlock (hhead : block < 512) : Settles (dataBlock edid block (val edid block) info)
    (BlockFits edid block) fun _ => True := by
  rw [dataBlock]
  split
  · rename_i htag
    have htag' : blockTag edid block = 1 := htag
    refine settles_byteAt (fun h => h.audio htag) fun haudio => settles_pure ?_ trivial
    exact ⟨hhead, fun _ => haudio, fun h => by omega, fun h => by omega⟩
  rename_i hnot1
  have hnot1' : blockTag edid block ≠ 1 := hnot1
  split
  · rename_i htag
    have htag' : blockTag edid block = 2 := htag
    exact settles_videoBlock.congr ⟨fun h => ⟨hhead, fun h1 => absurd h1 hnot1, fun _ => h,
      fun h3 => by omega⟩, fun h => h.video htag⟩
  rename_i hnot2
  split
  · rename_i htag
    exact settles_vendorBlock.congr ⟨fun h => ⟨hhead, fun h1 => absurd h1 hnot1,
      fun h2 => absurd h2 hnot2, fun _ => h⟩, fun h => h.vendor htag⟩
  · rename_i hnot3
    exact settles_pure ⟨hhead, fun h => absurd h hnot1, fun h => absurd h hnot2,
      fun h => absurd h hnot3⟩ trivial

/-- The data blocks are read without a fault if each one that is looked for fits. -/
lemma settles_dataBlocks : Settles (dataBlocks edid stop block info)
    (∀ b, AtBlock edid stop block b → BlockFits edid b) fun _ => True := by
  induction hn : stop - block using Nat.strong_induction_on generalizing block info with
  | _ n ih =>
    have hwalk := forall_reflTransGen_iff (a := block) (p := BlockFits edid)
      (r := fun b c => c = b + (1 + blockLen (val edid b)) ∧ c < stop)
    rw [dataBlocks]
    refine settles_byteAt (fun h => (h block .refl).head) fun hhead => ?_
    refine (settles_dataBlock hhead).bind (fun h => h block .refl) fun hfits info' _ => ?_
    split
    · rename_i hlt
      refine (ih _ (by omega) rfl).congr (Iff.trans ?_ hwalk.symm)
      constructor
      · intro h
        refine ⟨hfits, ?_⟩
        rintro _ ⟨rfl, -⟩
        exact h
      · exact fun h => h.2 _ ⟨rfl, hlt⟩
    · rename_i hle
      exact settles_pure (hwalk.mpr ⟨hfits, fun c hc => absurd (hc.1 ▸ hc.2) hle⟩) trivial

lemma val_lt (i : Nat) : val edid i < 256 := (edid i).isLt

lemma combineHi8Lo_upperNibble (hb : b < 256) (hlo : lo < 256) :
    combineHi8Lo (upperNibble b) lo = (b &&& 0xF0) <<< 4 + lo := by
  have hshift : ∀ b : Fin 256, upperNibble b.val <<< 8 = (b.val &&& 0xF0) <<< 4 := by decide +kernel
  rw [combineHi8Lo, ← shiftLeft_add_eq_or_of_lt (by simpa using hlo), hshift ⟨b, hb⟩]

lemma combineHi8Lo_lowerNibble (hlo : lo < 256) :
    combineHi8Lo (lowerNibble b) lo = (b &&& 0x0F) <<< 8 + lo := by
  rw [combineHi8Lo, ← shiftLeft_add_eq_or_of_lt (by simpa using hlo), lowerNibble, Nat.and_comm]

/-- The sizes, as the two extensions of the standard put them together. -/
lemma sizesAt_eq (p : Nat) : sizesAt edid p =
    ⟨(val edid (p + 4) &&& 0xF0) <<< 4 + val edid (p + 2),
      (val edid (p + 4) &&& 0x0F) <<< 8 + val edid (p + 3),
      (val edid (p + 7) &&& 0xF0) <<< 4 + val edid (p + 5),
      (val edid (p + 7) &&& 0x0F) <<< 8 + val edid (p + 6)⟩ := by
  rw [sizesAt, combineHi8Lo_upperNibble (val_lt _) (val_lt _), combineHi8Lo_lowerNibble (val_lt _),
    combineHi8Lo_upperNibble (val_lt _) (val_lt _), combineHi8Lo_lowerNibble (val_lt _)]

lemma clock_eq_zero_iff {p : Nat} :
    (val edid (p + 1) <<< 8 + val edid p) * 10000 = 0 ↔ ¬HasClock edid p := by
  rw [HasClock, not_or, not_not, not_not, shiftLeft_eq]
  omega

lemma timingsFit_succ {p : Nat} (hclock : HasClock edid p) : TimingsFit edid (n + 1) i p ↔
    TimingFits edid i p ∧ TimingsFit edid n (i + 1) (p + 18) := by
  constructor
  · intro h
    refine ⟨h 0 (succ_pos n) fun l hl => ?_, fun j hj hall => ?_⟩
    · rw [Nat.le_zero.mp hl]
      exact hclock
    have hnext := h (j + 1) (succ_lt_succ hj) fun l hl => ?_
    · rwa [show i + (j + 1) = i + 1 + j by omega, show p + 18 * (j + 1) = p + 18 + 18 * j by omega]
        at hnext
    cases l with
    | zero => exact hclock
    | succ l =>
      rw [show p + 18 * (l + 1) = p + 18 + 18 * l by omega]
      exact hall l (Nat.le_of_succ_le_succ hl)
  · rintro ⟨hfirst, hrest⟩ j hj hall
    cases j with
    | zero => exact hfirst
    | succ j =>
      rw [show i + (j + 1) = i + 1 + j by omega, show p + 18 * (j + 1) = p + 18 + 18 * j by omega]
      refine hrest j (lt_of_succ_lt_succ hj) fun l hl => ?_
      rw [show p + 18 + 18 * l = p + 18 * (l + 1) by omega]
      exact hall (l + 1) (Nat.succ_le_succ hl)

/-- The timings of an extension are read without a fault if each of them has a place and sizes. -/
lemma settles_ceaTimings {p : Nat} (hin : 0 < n → p + 18 * n ≤ 512) :
    Settles (ceaTimings edid n i p info) (TimingsFit edid n i p) fun _ => True := by
  induction n generalizing i p info with
  | zero => exact settles_pure (fun j hj => absurd hj (not_lt_zero j)) trivial
  | succ n ih =>
    have hend := hin (succ_pos n)
    refine settles_byte (by omega) ?_
    refine settles_byte (by omega) ?_
    dsimp only
    split
    · rename_i hzero
      refine settles_pure (fun j _ hall => ?_) trivial
      exact absurd (hall 0 (Nat.zero_le j)) (clock_eq_zero_iff.mp hzero)
    rename_i hnonzero
    have hclock : HasClock edid p := not_not.mp fun h => hnonzero (clock_eq_zero_iff.mpr h)
    have hsucc := timingsFit_succ (n := n) (i := i) hclock
    iterate 6 refine settles_byte (by omega) ?_
    refine settles_divideBy.bind (fun h => ?_) fun hdiv fps _ => settles_byte (by omega) ?_
    · have hfits := (hsucc.mp h).1
      have hmul := Nat.mul_ne_zero hfits.htotal hfits.vtotal
      rwa [sizesAt_eq] at hmul
    refine settles_storeAt.bind (fun h => (hsucc.mp h).1.place) fun hplace ceaTiming _ => ?_
    have hfirst : TimingFits edid i p := by
      refine ⟨hplace, ?_, ?_⟩
      · rw [sizesAt_eq]
        exact Nat.ne_zero_of_mul_ne_zero_left hdiv
      · rw [sizesAt_eq]
        exact Nat.ne_zero_of_mul_ne_zero_right hdiv
    exact (ih fun _ => by omega).congr ⟨fun h => hsucc.mpr ⟨hfirst, h⟩, fun h => (hsucc.mp h).2⟩

lemma settles_edidParseCea (hbase : base + 128 ≤ 512) :
    Settles (edidParseCea edid base info) (IsCea edid base → CeaFits edid base) fun _ => True := by
  have hin : base + [0x2, 0x3].length ≤ 512 := by simp; omega
  refine (ensures_sameBytes hin).then_settles fun same hsame => ?_
  by_cases htag : StartsWith edid base [0x2, 0x3]
  · rw [if_pos (hsame.mpr htag)]
    refine (ensures_sumBytes hbase).then_settles fun sum hsum => ?_
    split
    · rename_i hnonzero
      exact settles_pure (fun hcea => absurd (hsum.trans hcea.checksum) hnonzero) trivial
    rename_i hzero
    have hcea : IsCea edid base := ⟨htag, hsum.symm.trans (not_not.mp hzero)⟩
    refine settles_byte (by omega) ?_
    refine settles_byte (by omega) ?_
    refine settles_dataBlocks.bind (fun h => (h hcea).blocks) fun hblocks info₁ _ => ?_
    refine (settles_ceaTimings ?_).bind (fun h => (h hcea).timings) fun htimings info₂ _ => ?_
    · omega
    · exact settles_pure (fun _ => ⟨hblocks, htimings⟩) trivial
  · rw [if_neg fun h => htag (hsame.mp h)]
    exact settles_pure (fun hcea => absurd hcea.tag htag) trivial

lemma succeeds_edidDump (hbase : base + 128 ≤ 512) : Succeeds (edidDump edid base) := by
  refine ensures_foldlM trivial fun _ i hi _ => ?_
  have hlt : i < 128 := mem_range.mp hi
  exact ensures_byte (by omega) succeeds_pure

lemma settles_extensions {k : Nat} (hk : k + n ≤ 3) : Settles (extensions edid n (128 * k) info)
    (∀ j, k < j → j ≤ k + n → IsCea edid (128 * j) → CeaFits edid (128 * j)) fun _ => True := by
  induction n generalizing k info with
  | zero => exact settles_pure (fun j hlt hle => by omega) trivial
  | succ n ih =>
    have hbase : 128 * k + 128 + 128 ≤ 512 := by omega
    refine (settles_edidParseCea hbase).bind (fun h => h (k + 1) (by omega) (by omega))
      fun hfits r _ => ?_
    have hrest : ∀ info, Settles (extensions edid n (128 * k + 128) info)
        (∀ j, k < j → j ≤ k + (n + 1) → IsCea edid (128 * j) → CeaFits edid (128 * j))
        fun _ => True := by
      intro info
      refine (ih (k := k + 1) (by omega)).congr
        ⟨fun h j hlt hle => ?_, fun h j hlt hle => h j (by omega) (by omega)⟩
      obtain rfl | hne := eq_or_ne j (k + 1)
      · exact hfits
      · exact h j (by omega) (by omega)
    obtain ⟨ret, info'⟩ := r
    show Settles (if ret ≠ 0 then _ else _) _ _
    split
    · exact (succeeds_edidDump hbase).then_settles fun _ _ => hrest info'
    · exact hrest info'

/-- The parser comes to its end without a read outside the buffer, a store outside an array or a
division by 0 if and only if it has parsed already, or the monitor has no header of the first
version, or what it sends fits. -/
theorem edidParse_succeeds_iff (edid : Bytes) (info : EdidInfo) :
    (∃ ret info', edidParse edid info = .ok (ret, info')) ↔
      (info.option &&& optValid = 0#32 → StartsWith edid 0 edidV1Header → EdidFits edid) := by
  have hrun : Settles (edidParse edid info)
      (info.option &&& optValid = 0#32 → StartsWith edid 0 edidV1Header → EdidFits edid)
      fun _ => True := by
    rw [edidParse]
    split
    · rename_i hvalid
      exact settles_pure (fun hzero => absurd hzero hvalid) trivial
    rename_i hinvalid
    have hzero : info.option &&& optValid = 0#32 := not_not.mp hinvalid
    refine (settles_edidParseV1 fun _ _ => rfl).bind
      (fun h hheader => (h hzero hheader).descriptors) fun hdescriptors r hret => ?_
    obtain ⟨ret, info₁⟩ := r
    show Settles (if ret = 0 then _ else _) _ _
    split
    · rename_i hret0
      have hheader : StartsWith edid 0 edidV1Header := hret.mp hret0
      refine settles_byte (by decide) ?_
      have hcount : (if val edid 0x7E ≥ edidBlockMax then edidBlockMax - 1 else val edid 0x7E) =
          min 3 (val edid 0x7E) := by
        rw [edidBlockMax]
        split <;> omega
      rw [hcount]
      refine (settles_extensions (k := 0) (by omega)).bind (fun h j hpos hle =>
        (h hzero hheader).extensions j (by omega) hpos (by omega)) fun hextensions info₂ _ => ?_
      exact settles_pure (fun _ _ => ⟨hdescriptors hheader, fun k hk hpos hle =>
        hextensions k (by omega) (by omega)⟩) trivial
    · rename_i hret0
      exact settles_pure (fun _ hheader => absurd (hret.mpr hheader) hret0) trivial
  constructor
  · rintro ⟨ret, info', hok⟩
    exact hrun.needs _ hok
  · intro h
    obtain ⟨⟨ret, info'⟩, hok, -⟩ := hrun.ensures h
    exact ⟨ret, info', hok⟩

/-! ### Monitors -/

def sparse (bytes : List (Nat × BitVec 8)) : Bytes := fun i => (bytes.lookup i).getD 0#8

def headerBytes : List (Nat × BitVec 8) :=
  [(1, 0xff#8), (2, 0xff#8), (3, 0xff#8), (4, 0xff#8), (5, 0xff#8), (6, 0xff#8)]

def timing720 (p : Nat) : List (Nat × BitVec 8) :=
  [(p, 0x01#8), (p + 1, 0x1D#8), (p + 3, 0x72#8), (p + 4, 0x51#8), (p + 5, 0xD0#8), (p + 6, 0x1E#8),
    (p + 7, 0x20#8), (p + 8, 0x6E#8), (p + 9, 0x28#8), (p + 10, 0x55#8), (p + 17, 0x1E#8)]

def monitor720 : Bytes :=
  sparse (headerBytes ++ timing720 0x36 ++
    [(0x7E, 1#8), (128, 2#8), (129, 3#8), (130, 6#8), (132, 0x41#8), (133, 0x10#8)] ++
    timing720 134 ++ [(255, 0xAC#8)])

lemma atBlock_monitor720 (h : AtBlock monitor720 134 132 block) : block = 132 := by
  obtain rfl | ⟨next, ⟨rfl, hlt⟩, -⟩ := h.cases_head
  · rfl
  · exact absurd hlt (by decide)

lemma isCea_monitor720 : IsCea monitor720 128 where
  tag := by
    rw [StartsWith]
    decide
  checksum := by decide +kernel

lemma edidFits_monitor720 : EdidFits monitor720 where
  descriptors i hi hdetailed := by
    obtain rfl | hpos := Nat.eq_zero_or_pos i
    · exact ⟨by decide, by decide⟩
    · have hzero : ∀ i < 4, 0 < i →
          val monitor720 (descriptorAt i) = 0 ∧ val monitor720 (descriptorAt i + 1) = 0 := by decide
      exact absurd (hzero i hi hpos) hdetailed
  extensions k _ hpos hle _ := by
    obtain rfl : k = 1 := by
      have hcount : val monitor720 0x7E = 1 := by decide
      omega
    refine ⟨fun block hat => ?_, fun i _ hclocks => ?_⟩
    · rw [atBlock_monitor720 hat]
      exact ⟨by decide, by decide, by decide, fun htag => absurd htag (by decide)⟩
    -- the second timing has no pixel clock
    obtain rfl : i = 0 := by
      by_contra hne
      have hclock := hclocks 1 (by omega)
      rw [HasClock] at hclock
      exact absurd hclock (by decide)
    exact ⟨by decide, by decide, by decide⟩

theorem edidParse_monitor720 : IsCea monitor720 128 ∧ EdidFits monitor720 ∧
    ∃ ret info', edidParse monitor720 EdidInfo.clear = .ok (ret, info') :=
  ⟨isCea_monitor720, edidFits_monitor720,
    (edidParse_succeeds_iff monitor720 EdidInfo.clear).mpr fun _ _ => edidFits_monitor720⟩

/-- What goes wrong with a monitor that sends the header and these bytes. -/
def parseFault (bytes : List (Nat × BitVec 8)) : Option Fault :=
  faultOf (edidParse (sparse (headerBytes ++ bytes)) EdidInfo.clear)

/-- A timing without sizes is divided by 0. A video code from 64 on is stored behind `cea_vic`. The
seventh timing of an extension is stored behind `cea_timing`. An extension of 255 bytes is read
behind the end of the buffer. -/
theorem edidParse_faults : parseFault [(0x36, 1#8)] = some .divide ∧
    parseFault [(0x7E, 1#8), (128, 2#8), (129, 3#8), (130, 6#8), (132, 0x41#8), (133, 0x40#8),
      (255, 0x74#8)] = some (.store 8) ∧
    parseFault ([(0x7E, 1#8), (128, 2#8), (129, 3#8), (130, 2#8), (255, 0x13#8)] ++
      (range 7).flatMap fun j => [(132 + 18 * j, 0x10#8), (135 + 18 * j, 0x10#8),
        (148 + 18 * j, 1#8)]) = some (.store 6) ∧
    parseFault [(0x7E, 3#8), (384, 2#8), (385, 3#8), (386, 0xFF#8), (511, 0xFC#8)] =
      some (.read 540) := by
  refine ⟨?_, ?_, ?_, ?_⟩ <;> decide +kernel

end Wm8850.Edid
