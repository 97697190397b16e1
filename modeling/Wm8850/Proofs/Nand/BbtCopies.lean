import Wm8850.Proofs.Nand.BbtCodec

/-! # One copy of a table on the flash

`Shows` says what a search finds in the blocks of a chip: nothing, or one block with the pattern, a
version and a table. An erase takes a copy away, a write puts one there, and neither changes what is
found elsewhere (`Shows.frame`). -/

namespace Wm8850.Nand.Bbt

open Lib List

variable {f' : Flash} {b b' p : Nat} {table bbt : Bytes} {place : Place} {v : Device} {f : Flash}
  {d : Descr}
    {i retlen : Nat} {l : List Nat}

structure Descr.Sound (d : Descr) (v : Device) : Prop where
  width : d.Width
  code : d.reservedBlockCode = 0
  verified : d.Verified
  version : d.version = true
  write : d.write = true
  saveContent : d.saveContent = false
  four : 4 ∣ v.numblocks d
  marker : addMarkerLen d ≤ min (v.numblocks d * d.bits / 8) v.blocksize
  /-- the table fits in a block -/
  fits : align v (v.numblocks d * d.bits / 8 + addMarkerLen d) ≤ v.blocksize
  maxblocks : d.maxblocks ≤ v.numblocks d
  /-- an erased block does not have the pattern -/
  pattern : ∃ i < d.pattern.length, d.pattern.getD i 0 ≠ 0xff
  /-- pattern and version are in the out-of-band bytes, and do not overlap -/
  oob : d.noOob = false → d.offs + d.pattern.length ≤ v.oobsize ∧ d.veroffs < v.oobsize ∧
    (d.veroffs < d.offs ∨ d.offs + d.pattern.length ≤ d.veroffs)
  /-- with a table for each chip, `startblock & (bbtblocks - 1)` is the last block of the first -/
  chips : d.perChip = true → v.numchips = 1 ∨ ∃ k, v.chipBlocks = 2 ^ k

/-- The patterns of the two descriptors stand in the same place and are not the same. -/
structure Descr.Apart (d d' : Descr) : Prop where
  noOob : d.noOob = d'.noOob
  offs : d.offs = d'.offs
  pattern : ∃ i, i < d.pattern.length ∧ i < d'.pattern.length ∧
    d.pattern.getD i 0 ≠ d'.pattern.getD i 0

/-- A block in which the table of chip `i` is searched. -/
def Descr.InRange (d : Descr) (v : Device) (i b : Nat) : Prop :=
  ∃ k < d.maxblocks, b = d.blockFrom (searchStart v d i) k

structure Copy where
  block : Nat
  version : BitVec 8
  table : Bytes

/-- What a search for the table of chip `i` finds. -/
def Shows (v : Device) (d : Descr) (f : Flash) (i : Nat) : Option Copy → Prop
  | none => ∀ b, d.InRange v i b → checkPattern v f d b = false
  | some c => d.InRange v i c.block ∧ checkPattern v f d c.block = true ∧
      (∀ b, d.InRange v i b → checkPattern v f d b = true → b = c.block) ∧
      readVersion v f d c.block = c.version ∧
      f.HasTable v d (c.block <<< v.blocktopage) (i * v.numblocks d) c.table

structure SameBlock (v : Device) (f f' : Flash) (b : Nat) : Prop where
  data : ∀ p < v.blocksize, f'.data (b <<< v.bbtEraseShift + p) = f.data (b <<< v.bbtEraseShift + p)
  oob : f'.oob ((b <<< v.bbtEraseShift) >>> v.pageShift)
    = f.oob ((b <<< v.bbtEraseShift) >>> v.pageShift)

lemma SameBlock.refl (v : Device) (f : Flash) (b : Nat) : SameBlock v f f b := ⟨fun _ _ => rfl, rfl⟩

lemma SameBlock.trans {f'' : Flash} (h : SameBlock v f f' b)
    (h' : SameBlock v f' f'' b) : SameBlock v f f'' b :=
  ⟨fun p hp => (h'.data p hp).trans (h.data p hp), h'.oob.trans h.oob⟩

/-! ### Blocks and addresses -/

section
variable (v : Device)

lemma Device.chip_numblocks (h : d.perChip = true) : v.numblocks d = v.chipBlocks := by
  rw [Device.numblocks, if_pos h, v.chipsize_shift]

lemma Device.chips_numblocks (d : Descr) :
    v.chips d * v.numblocks d = v.numchips * v.chipBlocks := by
  unfold Device.chips
  by_cases h : d.perChip = true
  · rw [if_pos h, v.chip_numblocks h]
  · rw [if_neg h, Device.numblocks, if_neg h, v.size_shift, one_mul]

lemma Device.size_eq : v.size = v.numchips * v.chipBlocks * v.blocksize := by
  rw [Device.size, Device.chipsize, Nat.shiftLeft_eq, mul_assoc]
  rfl

lemma block_addr (b : Nat) : b <<< v.bbtEraseShift = b * v.blocksize := Nat.shiftLeft_eq _ _

lemma block_page_addr (b : Nat) :
    (b <<< v.blocktopage) <<< v.pageShift = b <<< v.bbtEraseShift := by
  rw [← Nat.shiftLeft_add, Device.blocktopage, Nat.sub_add_cancel v.page_le]

lemma block_page (b : Nat) : (b <<< v.bbtEraseShift) >>> v.pageShift = b <<< v.blocktopage := by
  rw [← block_page_addr, Nat.shiftLeft_shiftRight]

lemma block_page_mul (b : Nat) :
    (b <<< v.bbtEraseShift) >>> v.pageShift * v.writesize = b * v.blocksize := by
  rw [block_page, ← block_addr, ← block_page_addr, Nat.shiftLeft_eq (b <<< v.blocktopage)]
  rfl

lemma block_apart (h : b ≠ b') (hp : p < v.blocksize) : ¬ (b' * v.blocksize ≤ b * v.blocksize + p ∧
      b * v.blocksize + p < b' * v.blocksize + v.blocksize) := by
  rcases lt_or_gt_of_ne h with hlt | hgt
  · have hmul : (b + 1) * v.blocksize ≤ b' * v.blocksize := Nat.mul_le_mul_right _ hlt
    rw [Nat.succ_mul] at hmul
    omega
  · have hmul : (b' + 1) * v.blocksize ≤ b * v.blocksize := Nat.mul_le_mul_right _ hgt
    rw [Nat.succ_mul] at hmul
    omega

end

/-- The block that `write_bbt` tries first for the table of a chip. -/
def tableStart (v : Device) (d : Descr) (chip : Nat) : Nat :=
  if d.lastBlock then v.numblocks d * (chip + 1) - 1 else chip * v.numblocks d

/-- `startblock & (bbtblocks - 1)` is the last block of the first chip. -/
def StartKept (v : Device) (d : Descr) : Prop :=
  d.perChip = true → d.lastBlock = true →
    (v.numchips * v.chipBlocks - 1) &&& (v.chipBlocks - 1) = v.chipBlocks - 1

lemma Descr.Sound.startKept (hd : d.Sound v) : StartKept v d := by
  intro hper _
  rcases hd.chips hper with hone | ⟨k, hk⟩
  · rw [hone, one_mul, Nat.and_self]
  rw [hk, Nat.and_two_pow_sub_one_eq_mod]
  have hpos : 0 < 2 ^ k := Nat.two_pow_pos k
  obtain ⟨n, hn⟩ := Nat.exists_eq_add_of_lt v.chips_pos
  rw [hn, show (0 + n + 1) * 2 ^ k - 1 = 2 ^ k - 1 + 2 ^ k * n by
    rw [zero_add, Nat.succ_mul, mul_comm n]
    omega, Nat.add_mul_mod_self_left, Nat.mod_eq_of_lt (by omega)]

lemma searchStart_eq (hkept : StartKept v d) (hi : i < v.chips d) :
    searchStart v d i = tableStart v d i := by
  unfold searchStart tableStart
  simp only
  rw [v.chipsize_shift, v.size_shift]
  by_cases hper : d.perChip = true
  · rw [if_pos hper, v.chip_numblocks hper]
    by_cases hlast : d.lastBlock = true
    · rw [if_pos hlast, if_pos hlast]
      have hand := hkept hper hlast
      by_cases hzero : v.chipBlocks = 0
      · rw [hzero]
        simp
      · rw [Nat.mul_comm v.chipBlocks, Nat.succ_mul]
        omega
    · rw [if_neg hlast, if_neg hlast, Nat.zero_and, Nat.zero_add]
  have hzero : i = 0 := by
    rw [Device.chips, if_neg hper] at hi
    omega
  have hall : v.numblocks d = v.numchips * v.chipBlocks := by
    rw [Device.numblocks, if_neg hper, v.size_shift]
  rw [if_neg hper, hzero, Nat.zero_mul, Nat.zero_mul, Nat.add_zero, Nat.mul_one, hall]

lemma Descr.InRange.chip (hd : d.Sound v) (hi : i < v.chips d) (h : d.InRange v i b) :
    i * v.numblocks d ≤ b ∧ b < (i + 1) * v.numblocks d := by
  obtain ⟨k, hk, rfl⟩ := h
  have hmax := hd.maxblocks
  rw [searchStart_eq hd.startKept hi, tableStart, Descr.blockFrom, Nat.succ_mul]
  by_cases hlast : d.lastBlock = true
  · rw [if_pos hlast, if_pos hlast, Nat.mul_succ, mul_comm]
    omega
  · rw [if_neg hlast, if_neg hlast]
    omega

lemma Descr.InRange.lt_blocks (hd : d.Sound v)
    (hi : i < v.chips d) (h : d.InRange v i b) : b < v.numchips * v.chipBlocks := by
  obtain ⟨-, hlt⟩ := h.chip hd hi
  have hle : (i + 1) * v.numblocks d ≤ v.chips d * v.numblocks d := Nat.mul_le_mul_right _ hi
  rw [v.chips_numblocks] at hle
  omega

/-! ### What a block shows -/

section
variable {v : Device} {d : Descr} (hd : d.Sound v)
include hd

lemma Descr.Sound.marker_eq (h : d.noOob = true) : addMarkerLen d = d.pattern.length + 1 := by
  rw [addMarkerLen, if_pos h, if_pos hd.version]

lemma Descr.Sound.marker_le (h : d.noOob = true) : d.pattern.length + 1 ≤ v.blocksize := by
  rw [← hd.marker_eq h]
  exact hd.marker.trans (min_le_right _ _)

lemma Descr.Sound.veroffs_eq (h : d.noOob = true) : d.veroffs = d.pattern.length :=
  hd.verified.veroffs h hd.version

omit hd in
lemma scanReadRaw_same (h : SameBlock v f f' b)
    (hp : d.noOob = true → p < v.blocksize) : scanReadRaw v f' d b p = scanReadRaw v f d b p := by
  unfold scanReadRaw
  simp only
  by_cases hdata : d.noOob = true ∨ p < v.writesize
  · rw [if_pos hdata, if_pos hdata]
    apply h.data
    rcases hdata with hoob | hlt
    · exact hp hoob
    · exact hlt.trans_le (Nat.le_of_dvd (Nat.two_pow_pos _) v.writesize_dvd)
  · rw [if_neg hdata, if_neg hdata, h.oob]

omit hd in
lemma checkPattern_iff (f : Flash) (b : Nat) : checkPattern v f d b = true ↔ ∀ i < d.pattern.length,
      scanReadRaw v f d b ((if d.noOob then 0 else v.writesize + d.offs) + i)
        = d.pattern.getD i 0 := by
  unfold checkPattern
  simp only [all_eq_true, mem_range, beq_iff_eq]

lemma checkPattern_same (h : SameBlock v f f' b) :
    checkPattern v f' d b = checkPattern v f d b := by
  rw [Bool.eq_iff_iff, checkPattern_iff, checkPattern_iff]
  apply forall₂_congr
  intro i hi
  rw [scanReadRaw_same h]
  intro hoob
  have hle := hd.marker_le hoob
  rw [if_pos hoob]
  omega

lemma readVersion_same (h : SameBlock v f f' b) : readVersion v f' d b = readVersion v f d b := by
  apply scanReadRaw_same h
  intro hoob
  have hle := hd.marker_le hoob
  rw [if_pos hoob, hd.veroffs_eq hoob]
  omega

lemma hasTable_same {first : Nat} (h : SameBlock v f f' b)
    (htable : f.HasTable v d (b <<< v.blocktopage) first table) :
    f'.HasTable v d (b <<< v.blocktopage) first table := by
  intro i hi
  rw [← htable i hi]
  congr 2
  apply entry_congr
  have hbyte : i / (8 / d.bits) < v.numblocks d * d.bits / 8 := by
    rw [← hd.width.div_eq]
    exact Nat.div_lt_div_of_lt_of_dvd (hd.width.div_dvd_four.trans hd.four) hi
  have hle := (le_align v (v.numblocks d * d.bits / 8 + addMarkerLen d)).trans hd.fits
  rw [window, window, block_page_addr, add_assoc]
  exact h.data _ (by omega)

/-- What is found does not change if the blocks are the same, or do not have the pattern. -/
theorem Shows.frame {c : Option Copy} (h : Shows v d f i c) (hsame : ∀ b, d.InRange v i b →
      SameBlock v f f' b ∨ checkPattern v f' d b = false ∧ ∀ c', c = some c' → c'.block ≠ b) :
    Shows v d f' i c := by
  cases c with
  | none =>
    intro b hb
    rcases hsame b hb with hb' | ⟨hb', -⟩
    · rw [checkPattern_same hd hb']
      exact h b hb
    · exact hb'
  | some c =>
    obtain ⟨hrange, hfound, halone, hversion, htable⟩ := h
    have hblock : SameBlock v f f' c.block := (hsame c.block hrange).resolve_right fun hno =>
      hno.2 c rfl rfl
    refine ⟨hrange, ?_, ?_, ?_, hasTable_same hd hblock htable⟩
    · rw [checkPattern_same hd hblock]
      exact hfound
    · intro b hb hcheck
      rcases hsame b hb with hb' | ⟨hb', -⟩
      · rw [checkPattern_same hd hb'] at hcheck
        exact halone b hb hcheck
      · rw [hb'] at hcheck
        cases hcheck
    · rw [readVersion_same hd hblock]
      exact hversion

end

lemma findBbt_shows {c : Option Copy} (h : Shows v d f i c) :
    findBbt v f d i = c.map Copy.block := by
  unfold findBbt
  cases c with
  | none =>
    rw [Option.map_none, find?_eq_none]
    intro b hb hcheck
    obtain ⟨k, hk, rfl⟩ := mem_map.mp hb
    have hnot := h _ ⟨k, mem_range.mp hk, rfl⟩
    rw [hnot] at hcheck
    cases hcheck
  | some c =>
    obtain ⟨⟨k, hk, hblock⟩, hfound, halone, -⟩ := h
    cases hfind : find? (checkPattern v f d)
      ((range d.maxblocks).map (d.blockFrom (searchStart v d i))) with
    | none =>
      rw [find?_eq_none] at hfind
      exact absurd hfound (hfind c.block (mem_map.mpr ⟨k, mem_range.mpr hk, hblock.symm⟩))
    | some b =>
      obtain ⟨k', hk', hb⟩ := mem_map.mp (mem_of_find?_eq_some hfind)
      rw [halone b ⟨k', mem_range.mp hk', hb.symm⟩ (find?_some hfind)]
      rfl

lemma searchBbt_shows (hd : d.Sound v) {c : Option Copy} (h : Shows v d f i c) :
    (searchBbt v f d).pages i = c.map (fun c => c.block <<< v.blocktopage) ∧
      (searchBbt v f d).version i = (c.map Copy.version).getD 0 := by
  unfold searchBbt
  simp only
  rw [findBbt_shows h]
  cases c with
  | none => exact ⟨rfl, rfl⟩
  | some c => exact ⟨rfl, by simp [hd.version, h.2.2.2.1]⟩

/-! ### The two operations -/

section
variable {v : Device} {d : Descr} (hd : d.Sound v) (f : Flash)

lemma erase_sameBlock (h : b ≠ b') :
    SameBlock v f (FlashOp.apply v f (.erase (b' <<< v.bbtEraseShift))) b := by
  constructor
  · intro p hp
    rw [block_addr, block_addr]
    exact if_neg (block_apart v h hp)
  have hnot := block_apart v h (p := 0) (Nat.two_pow_pos _)
  apply if_neg
  rw [block_page_mul, block_addr]
  exact hnot

lemma write_sameBlock {len : Nat} (h : b ≠ b') (hlen : len ≤ v.blocksize) (buf : Bytes)
    (oob : Option Bytes) :
    SameBlock v f (FlashOp.apply v f (.write (b' <<< v.bbtEraseShift) len buf oob)) b := by
  constructor
  · intro p hp
    have hnot := block_apart v h hp
    rw [block_addr, block_addr]
    exact if_neg (by omega)
  cases oob with
  | none => rfl
  | some bytes =>
    funext p
    apply if_neg
    rintro ⟨hpage, -⟩
    rw [block_page, block_page, Nat.shiftLeft_eq, Nat.shiftLeft_eq] at hpage
    exact h (Nat.eq_of_mul_eq_mul_right (Nat.two_pow_pos _) hpage)

include hd in
lemma erase_checkPattern (b : Nat) :
    checkPattern v (FlashOp.apply v f (.erase (b <<< v.bbtEraseShift))) d b = false := by
  obtain ⟨i, hi, hne⟩ := hd.pattern
  have hpos : 0 < v.blocksize := Nat.two_pow_pos _
  have hall : ∀ p, (d.noOob = true → p < v.blocksize) →
      scanReadRaw v (FlashOp.apply v f (.erase (b <<< v.bbtEraseShift))) d b p = 0xff := by
    intro p hp
    unfold scanReadRaw
    simp only
    by_cases hdata : d.noOob = true ∨ p < v.writesize
    · have hp' : p < v.blocksize := by
        rcases hdata with hoob | hlt
        · exact hp hoob
        · exact hlt.trans_le (Nat.le_of_dvd hpos v.writesize_dvd)
      rw [if_pos hdata]
      exact if_pos (by omega)
    rw [if_neg hdata]
    have hpage : b <<< v.bbtEraseShift ≤ (b <<< v.bbtEraseShift) >>> v.pageShift * v.writesize ∧
        (b <<< v.bbtEraseShift) >>> v.pageShift * v.writesize < b <<< v.bbtEraseShift +
          v.blocksize := by
      rw [block_page_mul, block_addr]
      omega
    exact congrFun (if_pos hpage) _
  rw [Bool.eq_false_iff, Ne, checkPattern_iff]
  intro hfound
  apply hne
  rw [← hfound i hi]
  apply hall
  intro hoob
  have hle := hd.marker_le hoob
  rw [if_pos hoob]
  omega

end

/-! ### What is written -/

lemma walk_outside (k : Masks) (bbt : Bytes) (bbtoffs n offs : Nat) (buf : Bytes)
    (hp : ∀ i < 4 * ((n + 3) / 4), p ≠ offs + i >>> k.sft) :
    walk k bbt bbtoffs n offs buf p = buf p := by
  apply foldl_same (fun m : Bytes => m p)
  intro buf q hq
  rw [mem_range] at hq
  apply foldl_same (fun m : Bytes => m p)
  intro buf j hj
  rw [mem_range] at hj
  exact if_neg (hp _ (by omega))

def Image.writeOp (im : Image) (d : Descr) : FlashOp :=
  .write im.dest im.len im.buf (if d.noOob then none else some fun p => im.buf (im.len + p))

section
variable {v : Device} {d : Descr} (hd : d.Sound v)
include hd

lemma Descr.Sound.not_cutOff (page i : Nat) : ¬d.CutOff v page i := by
  rintro ⟨hsave, -⟩
  simp [hd.saveContent] at hsave

lemma bbtImage_sound (f : Flash) (retlen : Nat) (w : BitVec 8) (table : Bytes) (i b : Nat) :
    ∃ im, bbtImage v f retlen d w table i (b <<< v.blocktopage) = .ok im ∧
      im.dest = b <<< v.bbtEraseShift ∧ im.len ≤ v.blocksize ∧
      (if d.noOob then d.pattern.length < im.len else True) ∧ (∀ j < d.pattern.length,
        im.buf ((if d.noOob then 0 else im.len + d.offs) + j) = d.pattern.getD j 0) ∧
      im.buf ((if d.noOob then 0 else im.len) + d.veroffs) = w := by
  obtain ⟨k, hmasks, hk⟩ := exists_masks hd.width hd.code
  have hlen : v.numblocks d >>> k.sft = v.numblocks d * d.bits / 8 := by
    rw [hk.index, hd.width.div_eq]
  have hfour : 4 * ((v.numblocks d + 3) / 4) = v.numblocks d := by
    have := hd.four
    omega
  have hbytes : ∀ i < 4 * ((v.numblocks d + 3) / 4), i >>> k.sft < v.numblocks d >>> k.sft := by
    intro i hi
    rw [hk.index, hk.index]
    exact Nat.div_lt_div_of_lt_of_dvd (hd.width.div_dvd_four.trans hd.four) (by omega)
  have hfits := hd.fits
  unfold bbtImage emptyImage
  rw [hmasks]
  simp only [hd.saveContent]
  by_cases hoob : d.noOob = true
  · have hver := hd.veroffs_eq hoob
    have hlen' := le_align v (v.numblocks d >>> k.sft + (d.pattern.length + 1))
    rw [hd.marker_eq hoob, ← hlen] at hfits
    rw [if_pos hoob, if_pos hd.version]
    refine ⟨_, rfl, block_page_addr v b, hfits, ?_, ?_, ?_⟩
    · rw [if_pos hoob]
      simp only
      omega
    · intro j hj
      have hout : ∀ i < 4 * ((v.numblocks d + 3) / 4), j ≠ d.pattern.length + 1 + i >>> k.sft :=
        fun i _ => ne_of_lt (Nat.lt_add_right _ (Nat.lt_succ_of_lt hj))
      simp only [if_pos hoob, zero_add]
      rw [walk_outside _ _ _ _ _ _ hout, if_neg (by omega), putPattern, if_pos (by omega),
        Nat.sub_zero]
    have hout : ∀ i < 4 * ((v.numblocks d + 3) / 4),
        d.veroffs ≠ d.pattern.length + 1 + i >>> k.sft :=
      fun i _ => ne_of_lt (Nat.lt_add_right _ (by omega))
    simp only [if_pos hoob, zero_add]
    rw [walk_outside _ _ _ _ _ _ hout, if_pos ⟨hd.version, rfl⟩]
  have hmarker : addMarkerLen d = 0 := by simp [addMarkerLen, hoob]
  obtain ⟨-, -, hapart⟩ := hd.oob (by simpa using hoob)
  have hlen' := le_align v (v.numblocks d >>> k.sft)
  have hout : ∀ x, align v (v.numblocks d >>> k.sft) ≤ x → ∀ i < 4 * ((v.numblocks d + 3) / 4),
      x ≠ 0 + i >>> k.sft := by
    intro x hx i hi
    have := hbytes i hi
    omega
  rw [hmarker, ← hlen] at hfits
  rw [if_neg hoob]
  refine ⟨_, rfl, block_page_addr v b, hfits, by rw [if_neg hoob]; trivial, ?_, ?_⟩
  · intro j hj
    simp only
    rw [if_neg hoob, walk_outside _ _ _ _ _ _ (hout _ (by omega)), if_neg (by omega), putPattern,
      if_pos (by omega), Nat.add_sub_cancel_left]
  simp only
  rw [if_neg hoob, walk_outside _ _ _ _ _ _ (hout _ (by omega)), if_pos ⟨hd.version, rfl⟩]

lemma writeOp_shows {f0 : Flash} {w : BitVec 8} {im : Image}
    (him : bbtImage v f0 retlen d w table i (b <<< v.blocktopage) = .ok im) (f : Flash) :
    checkPattern v ((im.writeOp d).apply v f) d b = true ∧
      readVersion v ((im.writeOp d).apply v f) d b = w ∧
    Flash.HasTable ((im.writeOp d).apply v f) v d (b <<< v.blocktopage) (i * v.numblocks d) table ∧
    ∀ d', d.Apart d' → checkPattern v ((im.writeOp d).apply v f) d' b = false := by
  obtain ⟨im', him', hdest, hlen, hmarker, hpattern, hversion⟩ :=
    bbtImage_sound hd f0 retlen w table i b
  cases him.symm.trans him'
  have hdata : ∀ p < im.len, ((im.writeOp d).apply v f).data (im.dest + p) = im.buf p := by
    intro p hp
    show (if im.dest ≤ im.dest + p ∧ im.dest + p < im.dest + im.len then
      im.buf (im.dest + p - im.dest) else f.data (im.dest + p)) = _
    rw [if_pos (by omega), Nat.add_sub_cancel_left]
  -- a byte of the marker, in the page or in the out-of-band bytes
  have hscan : ∀ x, (d.noOob = true → x < im.len) → (d.noOob = false → x < v.oobsize) →
      scanReadRaw v ((im.writeOp d).apply v f) d b ((if d.noOob then 0 else v.writesize) + x)
        = im.buf ((if d.noOob then 0 else im.len) + x) := by
    intro x hx hx'
    unfold scanReadRaw
    by_cases hoob : d.noOob = true
    · rw [if_pos (.inl hoob), if_pos hoob, if_pos hoob, zero_add, ← hdest]
      exact hdata x (hx hoob)
    have hnot : ¬ (d.noOob = true ∨ v.writesize + x < v.writesize) := by
      rintro (h | h)
      · exact hoob h
      · omega
    rw [if_neg hoob, if_neg hoob, if_neg hnot, Nat.add_sub_cancel_left, Image.writeOp, if_neg hoob]
    exact if_pos ⟨by rw [hdest], hx' (by simpa using hoob)⟩
  have hfound : ∀ j < d.pattern.length, scanReadRaw v ((im.writeOp d).apply v f) d b
      ((if d.noOob then 0 else v.writesize + d.offs) + j) = d.pattern.getD j 0 := by
    intro j hj
    rw [← hpattern j hj]
    by_cases hoob : d.noOob = true
    · rw [if_pos hoob] at hmarker
      have hbyte := hscan j (fun _ => by omega) (fun h => by simp [h] at hoob)
      rw [if_pos hoob, if_pos hoob] at hbyte ⊢
      exact hbyte
    have hbyte := hscan (d.offs + j) (fun h => absurd h hoob) (fun h => by
      have := (hd.oob h).1
      omega)
    rw [if_neg hoob, if_neg hoob, ← add_assoc, ← add_assoc] at hbyte
    rw [if_neg hoob, if_neg hoob]
    exact hbyte
  refine ⟨(checkPattern_iff _ _).mpr hfound, ?_, ?_, ?_⟩
  · unfold readVersion
    by_cases hoob : d.noOob = true
    · rw [if_pos hoob] at hmarker hversion ⊢
      have hbyte := hscan d.veroffs (fun _ => by rw [hd.veroffs_eq hoob]; exact hmarker)
        (fun h => by simp [h] at hoob)
      rw [if_pos hoob, if_pos hoob, hversion, zero_add] at hbyte
      exact hbyte
    · rw [if_neg hoob] at hversion ⊢
      have hbyte := hscan d.veroffs (fun h => absurd h hoob) (fun h => (hd.oob h).2.1)
      rw [if_neg hoob, if_neg hoob, hversion, add_comm] at hbyte
      exact hbyte
  · exact fun i hi => bbtImage_stored hd.width hd.code hd.verified hd.four him hdata hi
      (hd.not_cutOff _ i)
  intro d' hapart
  obtain ⟨j, hj, hj', hne⟩ := hapart.pattern
  rw [Bool.eq_false_iff, Ne, checkPattern_iff]
  intro hother
  apply hne
  rw [← hfound j hj, ← hother j hj', ← hapart.offs]
  unfold scanReadRaw
  rw [hapart.noOob]

end

def NotBad (bbt : Bytes) (b : Nat) : Prop := blockState bbt b ≠ 1 ∧ blockState bbt b ≠ 3

section
variable {v : Device} {d : Descr} (hd : d.Sound v) {i : Nat} (hi : i < v.chips d)

lemma exists_placeBbt (hd : d.Sound v) (hi : i < v.chips d) {other : Place} {b0 : Nat}
    (hrange : d.InRange v i b0) (hgood : NotBad bbt b0)
    (hother : other.pages i ≠ some (b0 <<< v.blocktopage)) :
    ∃ b, placeBbt v d other bbt i = some (b <<< v.blocktopage) ∧ d.InRange v i b ∧ NotBad bbt b ∧
      other.pages i ≠ some (b <<< v.blocktopage) := by
  unfold placeBbt
  rw [← tableStart, ← searchStart_eq hd.startKept hi]
  cases hfind : (range d.maxblocks).findSome? fun k =>
      if blockState bbt (d.blockFrom (searchStart v d i) k) = 0x01 ∨
          blockState bbt (d.blockFrom (searchStart v d i) k) = 0x03 then none
      else if other.pages i ≠ some (d.blockFrom (searchStart v d i) k <<< v.blocktopage) then
        some (d.blockFrom (searchStart v d i) k <<< v.blocktopage) else none with
  | none =>
    -- the block that is there is not passed over
    obtain ⟨k, hk, rfl⟩ := hrange
    have hnone := findSome?_eq_none_iff.mp hfind k (mem_range.mpr hk)
    rw [if_neg (not_or.mpr ⟨hgood.1, hgood.2⟩), if_pos hother] at hnone
    cases hnone
  | some page =>
    obtain ⟨k, hk, hpage⟩ := exists_of_findSome?_eq_some hfind
    split at hpage
    · cases hpage
    case isFalse hbad =>
      split at hpage
      case isTrue hne =>
        cases hpage
        exact ⟨_, rfl, ⟨k, mem_range.mp hk, rfl⟩, not_or.mp hbad, hne⟩
      · cases hpage

include hd in
lemma writeChip_eq (place other : Place) (hb : b < v.numchips * v.chipBlocks)
    (hgood : NotBad bbt b) (hpage : place.pages i = some (b <<< v.blocktopage) ∨
      place.pages i = none ∧ placeBbt v d other bbt i = some (b <<< v.blocktopage)) (f : Flash)
        (retlen : Nat) :
    ∃ im, bbtImage v f retlen d (place.version i) bbt i (b <<< v.blocktopage) = .ok im ∧
      writeChip v f retlen d place other bbt i = ⟨0, { place with
              pages := fun j => if j = i then some (b <<< v.blocktopage) else place.pages j },
          [.erase (b <<< v.bbtEraseShift), im.writeOp d]⟩ := by
  obtain ⟨im, him, hdest, hlen, -⟩ := bbtImage_sound hd f retlen (place.version i) bbt i b
  refine ⟨im, him, ?_⟩
  have hmul : (b + 1) * v.blocksize ≤ v.size := by
    rw [v.size_eq]
    exact Nat.mul_le_mul_right _ hb
  rw [Nat.succ_mul] at hmul
  have hselect : (place.pages i).or (placeBbt v d other bbt i) = some (b <<< v.blocktopage) := by
    rcases hpage with h | ⟨h, h'⟩
    · rw [h, Option.some_or]
    · rw [h, h', Option.none_or]
  have herase : nandEraseNand v bbt im.dest = (0, [.erase (b <<< v.bbtEraseShift)]) := by
    unfold nandEraseNand
    rw [hdest, if_neg, Nat.shiftLeft_shiftRight]
    · have hstate : blockState bbt b = 0 ∨ blockState bbt b = 2 := by
        rcases blockState_cases bbt b with h | h | h | h
        · exact .inl h
        · exact absurd h hgood.1
        · exact .inr h
        · exact absurd h hgood.2
      exact if_pos hstate
    · rw [block_addr, Nat.mul_mod_left]
      omega
  have hwrite : scanWriteBbt v im.dest im.len im.buf
      (if d.noOob then none else some fun p => im.buf (im.len + p)) = (0, [im.writeOp d]) := by
    unfold scanWriteBbt
    rw [if_neg]
    · rfl
    · rw [hdest, block_addr]
      omega
  unfold writeChip
  rw [hselect]
  simp only [him, herase, hwrite]
  rfl

lemma readChips_other {j : Nat} (retlen : Nat) (hne : i ≠ j) (bbt : Bytes) :
    readChips v f retlen d place (some i) (j :: l) bbt = readChips v f retlen d place (some i) l
      bbt := by
  rw [readChips, if_neg (by simp [hne])]

lemma readChips_skip (retlen : Nat) (hl : i ∉ l) (bbt : Bytes) :
    readChips v f retlen d place (some i) l bbt = some (0, bbt) := by
  induction l with
  | nil => rfl
  | cons j l ih =>
    rw [mem_cons, not_or] at hl
    rw [readChips_other retlen hl.1]
    exact ih hl.2

lemma readChips_one {page : Nat} {bbt' : Bytes} (hpage : place.pages i = some page)
    (hread : readBbt v f retlen page (v.chipsize >>> v.bbtEraseShift) d
      (i * (v.chipsize >>> (v.bbtEraseShift + 2))) bbt = some (0, bbt')) (hmem : i ∈ l)
        (hnd : l.Nodup) :
    readChips v f retlen d place (some i) l bbt = some (0, bbt') := by
  induction l with
  | nil => cases hmem
  | cons j l ih =>
    obtain ⟨hj, hnd'⟩ := nodup_cons.mp hnd
    by_cases heq : i = j
    · subst heq
      rw [readChips, if_pos (.inr rfl), hpage, Option.bind_some, hread]
      exact readChips_skip retlen hj bbt'
    rw [readChips_other retlen heq]
    exact ih ((mem_cons.mp hmem).resolve_left heq) hnd'

include hd hi in
lemma readAbsBbt_hasTable (hpage : place.pages i = some (b <<< v.blocktopage))
    (hb : b < v.numchips * v.chipBlocks)
    (htable : f.HasTable v d (b <<< v.blocktopage) (i * v.numblocks d) table) (retlen : Nat)
    (bbt : Bytes) : ∃ bbt', readAbsBbt v f retlen d place (if d.perChip then some i else none) bbt
        = some (0, bbt') ∧ ∀ x, blockState bbt' x
        = if i * v.numblocks d ≤ x ∧ x < (i + 1) * v.numblocks d then
            blockState bbt x ||| storedState (blockState table x) else blockState bbt x := by
  have hfits := (le_align v (v.numblocks d * d.bits / 8 + addMarkerLen d)).trans hd.fits
  have hmul : (b + 1) * v.blocksize ≤ v.size := by
    rw [v.size_eq]
    exact Nat.mul_le_mul_right _ hb
  rw [Nat.succ_mul] at hmul
  have hsize : (b <<< v.blocktopage) <<< v.pageShift + addMarkerLen d + v.numblocks d * d.bits / 8 ≤
      v.size := by
    rw [block_page_addr, block_addr]
    omega
  unfold readAbsBbt
  by_cases hper : d.perChip = true
  · have hnum : v.chipsize >>> v.bbtEraseShift = v.numblocks d := by
      rw [v.chipsize_shift, v.chip_numblocks hper]
    have hoffs : 4 * (i * (v.chipsize >>> (v.bbtEraseShift + 2))) = i * v.numblocks d := by
      obtain ⟨q, hq⟩ := hd.four
      rw [Nat.shiftRight_add, hnum, hq, show (4 * q) >>> 2 = q by
        rw [Nat.shiftRight_eq_div_pow]
        omega, Nat.mul_left_comm]
    obtain ⟨bbt', hread, hload⟩ := readBbt_hasTable hd.width hd.marker hd.four hsize htable retlen
      (i * (v.chipsize >>> (v.bbtEraseShift + 2))) bbt
    rw [← hnum] at hread
    rw [Device.chips, if_pos hper] at hi
    rw [if_pos hper, if_pos hper]
    refine ⟨bbt', readChips_one hpage hread (mem_range.mpr hi) nodup_range, ?_⟩
    intro x
    rw [hload x, hoffs, Nat.succ_mul]
    by_cases hx : i * v.numblocks d ≤ x ∧ x < i * v.numblocks d + v.numblocks d
    · rw [if_pos hx, if_pos hx, Nat.add_sub_cancel' hx.1]
    · rw [if_neg hx, if_neg hx]
  have hzero : i = 0 := by
    rw [Device.chips, if_neg hper] at hi
    omega
  subst hzero
  have hnum : v.size >>> v.bbtEraseShift = v.numblocks d := by
    rw [Device.numblocks, if_neg hper]
  obtain ⟨bbt', hread, hload⟩ :=
    readBbt_hasTable hd.width hd.marker hd.four hsize htable retlen 0 bbt
  rw [if_neg hper, hpage, Option.bind_some, hnum]
  refine ⟨bbt', hread, ?_⟩
  intro x
  rw [hload x, Nat.mul_zero, Nat.zero_mul, Nat.zero_add, Nat.zero_add, Nat.one_mul, Nat.sub_zero]

end

end Wm8850.Nand.Bbt
