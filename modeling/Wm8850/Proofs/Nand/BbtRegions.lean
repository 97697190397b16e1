import Wm8850.Proofs.Nand.BbtCopies

/-! # Where the table of a chip may stand

`search_bbt`, `write_bbt` and `mark_bbt_region` compute the blocks of a table in three ways. The
search masks its start with the number of blocks of a chip less one, so with several chips of a
number of blocks that is no power of two it can look at other blocks than the ones that are written
and reserved. -/

namespace Wm8850.Nand.Bbt

open Lib List

variable {v : Device} {d : Descr} {i b : Nat}

/-- `write_bbt` tries the block for the table of a chip. -/
def Descr.MayWrite (d : Descr) (v : Device) (chip b : Nat) : Prop :=
  ∃ k < d.maxblocks, b = d.blockFrom (tableStart v d chip) k

lemma placeBbt_mayWrite {other : Place} {bbt : Bytes} {page : Nat}
    (h : placeBbt v d other bbt i = some page) :
    ∃ b, d.MayWrite v i b ∧ page = b <<< v.blocktopage := by
  unfold placeBbt at h
  rw [← tableStart] at h
  obtain ⟨k, hk, hpage⟩ := exists_of_findSome?_eq_some h
  refine ⟨_, ⟨k, mem_range.mp hk, rfl⟩, ?_⟩
  simp only at hpage
  split at hpage
  · cases hpage
  · split at hpage
    · exact (Option.some.inj hpage).symm
    · cases hpage

lemma mayWrite_iff_region {place : Place} (hwrite : d.write = true)
    (hpat : d.pattern.take 2 ≠ [0x72, 0x65])
    (hmax : d.maxblocks ≤ v.numblocks d) : d.MayWrite v i b ↔ b ∈ regionBlocks v d place i := by
  have hle : d.maxblocks ≤ (i + 1) * v.numblocks d :=
    le_trans hmax (Nat.le_mul_of_pos_left _ (by omega))
  rw [regionBlocks, if_pos hwrite, if_neg hpat, mem_map, Descr.MayWrite, tableStart,
    mul_comm (v.numblocks d)]
  generalize (i + 1) * v.numblocks d = stop at *
  unfold Descr.blockFrom
  -- the one counts down from the last block, the other up to it
  by_cases hlast : d.lastBlock = true
  · simp only [if_pos hlast, mem_range]
    constructor
    · rintro ⟨k, hk, rfl⟩
      exact ⟨d.maxblocks - 1 - k, by omega, by omega⟩
    · rintro ⟨k, hk, rfl⟩
      exact ⟨d.maxblocks - 1 - k, by omega, by omega⟩
  · simp only [if_neg hlast, mem_range, @eq_comm _ b]

lemma startKept_of_mayWrite (hpos : 0 < d.maxblocks)
    (hsame : ∀ b, d.MayWrite v 0 b → d.InRange v 0 b) :
    StartKept v d := by
  intro hper hlast
  obtain ⟨k, -, hk⟩ := hsame _ ⟨0, hpos, rfl⟩
  rw [tableStart, searchStart, v.chipsize_shift, v.size_shift] at hk
  simp only [Descr.blockFrom, if_pos hlast, if_pos hper, v.chip_numblocks hper] at hk
  have hle := Nat.and_le_right (n := v.numchips * v.chipBlocks - 1) (m := v.chipBlocks - 1)
  omega

/-- The blocks that `search_bbt` looks at for a chip are those that `write_bbt` tries and
`mark_bbt_region` reserves, and a table is written to a block that is looked at, exactly when the
mask keeps the start of the search. It does with one chip, and with chips of a power of two of
blocks (`Descr.Sound.startKept`). -/
theorem blocks_agree_iff (v : Device) (d : Descr) (place : Place) (hwrite : d.write = true)
    (hpat : d.pattern.take 2 ≠ [0x72, 0x65]) (hpos : 0 < d.maxblocks)
    (hmax : d.maxblocks ≤ v.numblocks d) :
    (∀ i < v.chips d,
      (∀ b, (d.InRange v i b ↔ d.MayWrite v i b) ∧
        (d.MayWrite v i b ↔ b ∈ regionBlocks v d place i)) ∧
      ∀ other bbt page, placeBbt v d other bbt i = some page →
        ∃ b, d.InRange v i b ∧ page = b <<< v.blocktopage) ↔ StartKept v d := by
  constructor
  · intro h
    have hchips : 0 < v.chips d := by
      unfold Device.chips
      split
      · exact v.chips_pos
      · exact one_pos
    exact startKept_of_mayWrite hpos fun b => ((h 0 hchips).1 b).1.mpr
  · intro hkept i hi
    have hsame : ∀ b, d.InRange v i b ↔ d.MayWrite v i b := fun b => by
      rw [Descr.InRange, searchStart_eq hkept hi]
      rfl
    refine ⟨fun b => ⟨hsame b, mayWrite_iff_region hwrite hpat hmax⟩,
      fun other bbt page hplace => ?_⟩
    obtain ⟨b, hb, hpage⟩ := placeBbt_mayWrite hplace
    exact ⟨b, (hsame b).mpr hb, hpage⟩

def twoChips (blocks : Fin 4096) : Device :=
  { smallDevice with
    numchips := 2, chipBlocks := blocks, chips_pos := by decide, blocks_lt := by omega }

def unplaced : Place := ⟨fun _ => none, fun _ => 0⟩

/-- Two chips of 1024 blocks: the table of the second one is in its last four blocks. -/
theorem blocks_agree_1024 : oobDescr.InRange (twoChips 1024) 1 2047 ∧
      2047 ∈ regionBlocks (twoChips 1024) oobDescr unplaced 1 := by
  have hall := (blocks_agree_iff (twoChips 1024) oobDescr unplaced rfl (by decide) (by decide)
    (by decide)).mpr
    fun _ _ => by decide
  obtain ⟨hsearch, hregion⟩ := (hall 1 (by decide)).1 2047
  have hwrite : oobDescr.MayWrite (twoChips 1024) 1 2047 := ⟨0, by decide, by decide⟩
  exact ⟨hsearch.mpr hwrite, hregion.mp hwrite⟩

/-- Two chips of 1000 blocks: the search for the first table starts at block 967, four blocks down,
and the table is written to block 999 and never found again. -/
theorem blocks_differ_1000 : ¬oobDescr.InRange (twoChips 1000) 0 999 ∧
    oobDescr.MayWrite (twoChips 1000) 0 999 ∧
      999 ∈ regionBlocks (twoChips 1000) oobDescr unplaced 0 := by
  refine ⟨?_, ⟨0, by decide, by decide⟩, by decide⟩
  rintro ⟨k, hk, hb⟩
  have hle : searchStart (twoChips 1000) oobDescr 0 < 999 := by decide
  have hb : 999 = searchStart (twoChips 1000) oobDescr 0 - k := hb
  omega

end Wm8850.Nand.Bbt
