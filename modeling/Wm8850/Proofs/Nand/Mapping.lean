import Wm8850.Proofs.Nand.Eslc

/-! # One page for reading, writing and erasing

`Chip.Consistent`: reading, writing and erasing mean one page. It fails in four ways:

- `wmt_nand_write_page` does not look at `prob_end`, the two others want it to be `1`;
- the verification passes the translated page to `NAND_CMD_READ0`, which translates it again;
- `single_erase_cmd` spares the partitions for `whole_eslc == 0`, the others test `!= 1`;
- the offset of the chip `0xECDED57A` is in `wmt_nand_cmdfunc` only.

So most pages must be their own translation, and `eslcPartPage_self_iff` says which are. -/

namespace Wm8850.Nand

open Lib Nat Option

/-- The pages of a physical block: twice those of a logical one with the whole chip in ESLC mode. -/
def Chip.blockPages (c : Chip) : Nat := if c.Whole then 2 * c.pagecnt else c.pagecnt

/-- An erased page is in the block of `t`, or nothing is erased. -/
def Chip.InBlock (c : Chip) : Target → Target → Prop
  | .skip, _ => True
  | .page e, .page q => e / c.blockPages = q / c.blockPages
  | .page _, .skip => False

/-- The functions of the driver agree that the page is at `t`. The block is erased from its first
page on. -/
structure Chip.Consistent (c : Chip) (page : Nat) (t : Target) : Prop where
  read0 : wmtNandCmdfunc c .read0 page = some t
  readPage : wmtNandReadPage c page = some t
  program : writePageProgram c page = some t
  verify : writePageVerify c page = some t
  erase : ∃ e, writePageErase c page = some e ∧ c.InBlock e t
  eraseBlock : ∃ e, singleEraseCmd c (page - page % c.pagecnt) = some e ∧ c.InBlock e t

def Chip.Rejected (c : Chip) (page : Nat) : Prop :=
  if c.shared page ≤ c.rank page then
    c.total page ≤ 2 * (c.rank page - c.shared page) + c.half page
  else c.half page = 0 ∨ c.baseBlkEnd page ≤ c.baseBlk page

/-- The page is one of the first four of its block, and the rank of the block is not changed. -/
def Chip.Still (c : Chip) (page : Nat) : Prop :=
  page % c.pagecnt < 4 ∧ c.half page = 0 ∧ c.rank page = 2 * c.shared page

/-- The pages on which the functions agree. -/
def Chip.Settled (c : Chip) (page : Nat) : Prop :=
  if c.id = 0xECDED57A then page < 4096 * 128
  else if c.Whole then page < 4 ∧ page < c.pagecnt ∧ ¬ (c.probEnd = 0 ∧ page + 1 = c.pagecnt)
  else if c.Hynix ∧ page < c.par4Ofs then
    if c.probEnd = 1 ∧ c.wholeEslc = 0 then c.Rejected page ∨ c.Still page
    else ¬ c.Rejected page ∧ c.Still page ∧ c.Good (page / c.pagecnt)
  else True

instance (c : Chip) (page : Nat) : Decidable (c.Still page) := inferInstanceAs (Decidable (_ ∧ _))

/-- What the driver's numbers satisfy: a power of two of pages in a block, and partitions that
follow each other. -/
structure Chip.Layout (c : Chip) (s : Nat) : Prop where
  pagecnt : c.pagecnt = 2 ^ s
  one_le : 1 ≤ s
  whole_le : c.Whole → s ≤ 7
  hynix_le : c.Hynix → s ≤ 8
  le12 : c.par1Ofs ≤ c.par2Ofs
  le23 : c.par2Ofs ≤ c.par3Ofs
  le34 : c.par3Ofs ≤ c.par4Ofs
  par4 : c.par4Ofs < 2 ^ 31

/-! ### The partitions -/

variable {page q : Nat} {w : WritePage}

lemma le_eslcEntry (x : Nat) : x ≤ eslcEntry x ∧ (eslcEntry x < x + 1 ↔ x < 4) := by
  unfold eslcEntry
  split <;> omega

section
variable {c : Chip} {s : Nat} (hl : c.Layout s) (hc : c.Hynix)
include hl

lemma Chip.Layout.pagecnt_pos : 0 < c.pagecnt := by
  rw [hl.pagecnt]
  exact Nat.two_pow_pos s

lemma Chip.Layout.half_pos : 0 < c.pagecnt / 2 := by
  have h : 2 ^ 1 ≤ 2 ^ s := Nat.pow_le_pow_right (by decide) hl.one_le
  rw [hl.pagecnt]
  omega

lemma Chip.Layout.basePages_lt (hq : q < (c.basePages page).1) :
    (c.basePages q).2 ≤ (c.basePages page).1 := by
  have h12 := hl.le12
  have h23 := hl.le23
  rcases basePages_cases c page with ⟨-, heq⟩ | ⟨-, -, heq⟩ | ⟨-, -, -, heq⟩ | ⟨-, -, -, heq⟩
  all_goals
    rw [heq] at hq ⊢
  all_goals
    rcases basePages_cases c q with ⟨h, heq'⟩ | ⟨h, h', heq'⟩ | ⟨h, h', h'', heq'⟩
      | ⟨h, h', h'', heq'⟩
    all_goals
      have hend := congrArg Prod.snd heq'
      omega

lemma Chip.Layout.basePages_le (page : Nat) : (c.basePages page).2 ≤ c.par4Ofs := by
  have h12 := hl.le12
  have h23 := hl.le23
  have h34 := hl.le34
  rcases basePages_cases c page with ⟨-, heq⟩ | ⟨-, -, heq⟩ | ⟨-, -, -, heq⟩ | ⟨-, -, -, heq⟩
  all_goals
    have hsnd := congrArg Prod.snd heq
    omega

lemma Chip.Layout.total_lt (page : Nat) : c.total page < wordSize - 1 := by
  have hend := hl.basePages_le page
  have hcount : c.total page ≤ c.baseBlkEnd page - c.baseBlk page := count_le _
  have htwo : 2 ≤ c.pagecnt := by
    have := hl.half_pos
    omega
  have hdiv : c.baseBlkEnd page ≤ c.par4Ofs / 2 :=
    (Nat.div_le_div_right hend).trans (div_le_div_left htwo (by decide))
  have hword := hl.par4
  unfold wordSize at *
  omega

/-- Where a page of the partitions goes, with the block. In a shared block without a good block
before it, the second half of the pages stays. -/
theorem Chip.Layout.eslcPartPage_split (hc : c.Hynix) (hpage : page < 2 ^ 31)
    (hpar : page < c.par4Ofs) : (c.Rejected page ∧ eslcPartPage c page = some .skip) ∨
    (¬ c.Rejected page ∧ ∃ i, c.baseBlk page ≤ i ∧ i < c.baseBlkEnd page ∧ eslcPartPage c page
        = some (.page (i * c.pagecnt + eslcEntry (page % (c.pagecnt / 2)))) ∧
      ((c.shared page ≤ c.rank page ∧ c.Good i ∧ c.goodBlks page (i - c.baseBlk page)
            = 2 * (c.rank page - c.shared page) + c.half page) ∨
        (c.rank page < c.shared page ∧ c.half page = 1 ∧ i = c.baseBlk page))) := by
  have hs := hl.pagecnt
  have h1 := hl.one_le
  have h8 := hl.hynix_le hc
  unfold Chip.Rejected
  by_cases hrank : c.shared page ≤ c.rank page
  · rw [if_pos hrank]
    rcases eslcPartPage_cases hs h1 h8 hpage hpar hrank with
      hskip | ⟨j, hj, hgood, hcount, hlt, hrun⟩
    · exact .inl hskip
    · refine .inr ⟨Nat.not_le_of_lt hlt, _, Nat.le_add_right _ j, hj, hrun, .inl ⟨hrank, hgood, ?_⟩⟩
      rw [Nat.add_sub_cancel_left]
      exact hcount
  rw [if_neg hrank, eslcPartPage_eq hs h1 h8 hpage hpar]
  have hspan := baseBlk_le_end hpar
  have hhalf := half_le c page
  have htotal := hl.total_lt page
  by_cases hzero : c.half page = 0
  · -- the bound is `0xffffffff`, and no count reaches it
    have hbound : c.bound page = wordSize - 1 := by
      rw [Chip.bound, if_neg hrank, if_neg (by omega)]
    rw [hbound]
    rcases reachLoop_select c.Good (t := wordSize - 1) (by decide)
      (c.baseBlkEnd page - c.baseBlk page) (c.baseBlk page) with
      ⟨-, hrun⟩ | ⟨j, -, -, -, -, hmany⟩
    · refine .inl ⟨.inl hzero, ?_⟩
      rw [hrun, Nat.add_sub_cancel' hspan]
      exact congrArg some (if_pos (Nat.le_refl _))
    · exact absurd hmany (Nat.not_le_of_lt htotal)
  -- the bound is `0`, and the loop stops at the first block
  have hbound : c.bound page = 0 := by
    rw [Chip.bound, if_neg hrank, if_pos (by omega)]
  rw [hbound]
  by_cases hempty : c.baseBlkEnd page ≤ c.baseBlk page
  · refine .inl ⟨.inr hempty, ?_⟩
    rw [Nat.sub_eq_zero_of_le hempty]
    exact congrArg some (if_pos hempty)
  refine .inr ⟨not_or.mpr ⟨hzero, hempty⟩, c.baseBlk page, Nat.le_refl _, by omega, ?_,
    .inr ⟨by omega, by omega, rfl⟩⟩
  obtain ⟨n, hn⟩ := Nat.exists_eq_add_of_lt (Nat.lt_of_not_le hempty)
  have hlen : c.baseBlkEnd page - c.baseBlk page = n + 1 := by omega
  rw [hlen]
  exact congrArg some (if_neg hempty)

lemma Chip.Layout.eslcEntry_self_iff (page : Nat) :
    eslcEntry (page % (c.pagecnt / 2)) = page % c.pagecnt ↔
      page % c.pagecnt < 4 ∧ c.half page = 0 := by
  have hsplit := mod_eq_half hl.pagecnt hl.one_le page
  have hlt := mod_lt page hl.half_pos
  have hhalf := half_le c page
  rcases Nat.eq_zero_or_pos (c.half page) with hzero | hone
  · rw [hzero] at hsplit
    unfold eslcEntry
    split <;> omega
  have hone' : c.half page = 1 := by omega
  rw [hone'] at hsplit
  unfold eslcEntry
  split <;> omega

end

section
variable {c : Chip} {s : Nat} (hl : c.Layout s) (hc : c.Hynix) (hpage : page < 2 ^ 31)
  (hpar : page < c.par4Ofs)
include hl hc hpage hpar

lemma Chip.Layout.eslcPartPage_block (hrun : eslcPartPage c page = some (.page q)) :
    ¬ c.Rejected page ∧ c.baseBlk page ≤ q / c.pagecnt ∧ q / c.pagecnt < c.baseBlkEnd page ∧
      q % c.pagecnt = eslcEntry (page % (c.pagecnt / 2)) ∧
      ((c.shared page ≤ c.rank page ∧ c.Good (q / c.pagecnt) ∧
        c.goodBlks page (q / c.pagecnt - c.baseBlk page)
            = 2 * (c.rank page - c.shared page) + c.half page) ∨
        (c.rank page < c.shared page ∧ c.half page = 1 ∧ q / c.pagecnt = c.baseBlk page)) := by
  rcases hl.eslcPartPage_split hc hpage hpar with ⟨-, hskip⟩ | ⟨hrej, i, hlo, hhi, hrun', hblk⟩
  · rw [hskip] at hrun
    cases hrun
  obtain ⟨hdiv, hmod⟩ := eslcPage_div hl.pagecnt_pos i page hl.half_pos
  rw [hrun, some_inj, Target.page.injEq] at hrun'
  rw [← hrun'] at hdiv hmod
  rw [hdiv]
  exact ⟨hrej, hlo, hhi, hmod, hblk⟩

lemma Chip.Layout.eslcPartPage_lt (hrun : eslcPartPage c page = some (.page q)) :
    q < (c.basePages page).2 ∧ q < c.par4Ofs := by
  obtain ⟨-, -, hhi, -⟩ := hl.eslcPartPage_block hc hpage hpar hrun
  have hend : q < (c.basePages page).2 := lt_of_div_lt_div hhi
  exact ⟨hend, lt_of_lt_of_le hend (hl.basePages_le page)⟩

lemma Chip.Layout.eslcPartPage_self_iff :
    eslcPartPage c page = some (.page page) ↔ ¬ c.Rejected page ∧ c.Still page ∧
      c.Good (page / c.pagecnt) := by
  have hself := hl.eslcEntry_self_iff page
  have hown : c.goodBlks page (page / c.pagecnt - c.baseBlk page) = c.rank page := rfl
  constructor
  · intro hrun
    obtain ⟨hrej, -, -, hmod, hblk⟩ := hl.eslcPartPage_block hc hpage hpar hrun
    obtain ⟨hfour, hhalf⟩ := hself.mp hmod.symm
    rcases hblk with ⟨hrank, hgood, hcount⟩ | ⟨-, hone, -⟩
    · exact ⟨hrej, ⟨hfour, hhalf, by omega⟩, hgood⟩
    · omega
  rintro ⟨hrej, ⟨hfour, hhalf, hrank⟩, hgood⟩
  rcases hl.eslcPartPage_split hc hpage hpar with ⟨hrej', -⟩ | ⟨-, i, hlo, -, hrun, hblk⟩
  · exact absurd hrej' hrej
  rcases hblk with ⟨-, hgoodi, hcount⟩ | ⟨-, hone, -⟩
  · -- both blocks are good and have one rank
    have hi : i = page / c.pagecnt :=
      eq_of_goodBlks_eq hlo (baseBlk_le hpar) hgoodi hgood (by omega)
    rw [hrun, hself.mpr ⟨hfour, hhalf⟩, hi, div_add_mod']
  · omega

/-- A translated page is translated to itself only if the page before was one of the first four of
its block, and the rank of the block was not changed. -/
theorem Chip.Layout.eslcPartPage_twice_iff (hrun : eslcPartPage c page = some (.page q)) :
    eslcPartPage c q = some (.page q) ↔ c.Still page := by
  have hhalf := half_le c page
  obtain ⟨hrej, hlo, hhi, hmod, hblk⟩ := hl.eslcPartPage_block hc hpage hpar hrun
  obtain ⟨hend, hparq⟩ := hl.eslcPartPage_lt hc hpage hpar hrun
  have hq : q < 2 ^ 31 := Nat.lt_trans hparq hl.par4
  have hzero : c.goodBlks page 0 = 0 := count_zero _
  by_cases hfrom : (c.basePages page).1 ≤ q
  · -- `q` is in the partition of `page`, and the rank of its block is known
    obtain ⟨hb, hsh, htot, hg⟩ := ranks_congr (basePages_eq hl.le12 hl.le23 hfrom hend)
    have hrankq : c.rank q = c.goodBlks page (q / c.pagecnt - c.baseBlk page) := by
      rw [Chip.rank, hg, hb]
    have hplace := mod_eq_half hl.pagecnt hl.one_le page
    have hentry := le_eslcEntry (page % (c.pagecnt / 2))
    rw [hl.eslcPartPage_self_iff hc hq hparq]
    constructor
    · rintro ⟨-, ⟨hfour, -, hrank⟩, -⟩
      rw [hrankq] at hrank
      rcases hblk with ⟨hle, -, hcount⟩ | ⟨hlt, -, hi⟩
      · have hsame : c.half page = 0 ∧ c.rank page = 2 * c.shared page := by omega
        rw [hsame.1] at hplace
        exact ⟨by omega, hsame⟩
      · rw [hi, Nat.sub_self] at hrank
        omega
    rintro ⟨hfour, hnull, hrank⟩
    rcases hblk with ⟨hle, hgood, hcount⟩ | ⟨hlt, -, -⟩
    · rw [hnull] at hplace
      have hmodq : q % c.pagecnt = page % c.pagecnt := by omega
      have hhalfq : c.half q = 0 := by
        rw [← hnull, Chip.half, Chip.half, hmodq]
      have hstill : c.Still q := ⟨by omega, hhalfq, by omega⟩
      refine ⟨?_, hstill, hgood⟩
      rw [Chip.Rejected, if_pos hle] at hrej
      rw [Chip.Rejected, hsh, if_pos (by omega)]
      omega
    · omega
  -- `q` is in the block that the partition shares, in front of the partition
  have hbefore : q < (c.basePages page).1 := Nat.lt_of_not_le hfrom
  have hfirst : q / c.pagecnt = c.baseBlk page :=
    Nat.le_antisymm (Nat.div_le_div_right (Nat.le_of_lt hbefore)) hlo
  refine iff_of_false (fun hself => ?_) (fun hstill => ?_)
  · -- its own translation would be in the partition before
    have hmem := (hl.eslcPartPage_block hc hq hparq hself).2.2.1
    have hle : c.baseBlkEnd q ≤ c.baseBlk page := Nat.div_le_div_right (hl.basePages_lt hbefore)
    omega
  -- the partition starts inside the block, and the rank `2` is not the first one
  obtain ⟨-, hnull, hrank⟩ := hstill
  have hsh : c.shared page = 1 := by
    refine if_neg fun hdvd => ?_
    have hmul := div_mul_le_self q c.pagecnt
    rw [hfirst, Chip.baseBlk, Nat.div_mul_cancel hdvd] at hmul
    omega
  rw [hfirst, Nat.sub_self] at hblk
  omega

end

/-! ### The whole chip in ESLC mode -/

def Chip.wholeEntry (c : Chip) (m : Nat) : Nat :=
  if c.probEnd = 0 ∧ m = c.pagecnt - 1 then m * 2 + 1 else eslcEntry m

lemma Chip.wholeEntry_lt (c : Chip) {m : Nat} (hm : m < c.pagecnt) :
    c.wholeEntry m < 2 * c.pagecnt := by
  unfold Chip.wholeEntry
  split
  · omega
  · exact eslcEntry_lt (by omega)

lemma Chip.wholeEntry_cases (c : Chip) (m : Nat) :
    (c.probEnd = 0 ∧ m = c.pagecnt - 1 ∧ c.wholeEntry m = m * 2 + 1) ∨
    (¬ (c.probEnd = 0 ∧ m = c.pagecnt - 1) ∧ m ≤ c.wholeEntry m ∧
      (c.wholeEntry m = m ↔ m < 4)) := by
  unfold Chip.wholeEntry
  by_cases h : c.probEnd = 0 ∧ m = c.pagecnt - 1
  · rw [if_pos h]
    exact .inl ⟨h.1, h.2, rfl⟩
  · have hle := le_eslcEntry m
    rw [if_neg h]
    exact .inr ⟨h, hle.1, by omega⟩

section
variable {c : Chip} {s : Nat} (hl : c.Layout s) (hc : c.Whole)
include hl hc

lemma Chip.Layout.eslcWholePage_eq (page : Nat) : eslcWholePage c page
      = some (.page (2 * (c.pagecnt * (page / c.pagecnt)) + c.wholeEntry (page % c.pagecnt))) := by
  have hpos := hl.pagecnt_pos
  have hbase : page - page % c.pagecnt = c.pagecnt * (page / c.pagecnt) :=
    (Nat.eq_sub_of_add_eq (div_add_mod page c.pagecnt)).symm
  have hlt : page % c.pagecnt < 128 := by
    have h := mod_lt page hpos
    have h7 : c.pagecnt ≤ 2 ^ 7 := by
      rw [hl.pagecnt]
      exact Nat.pow_le_pow_right (by decide) (hl.whole_le hc)
    omega
  unfold eslcWholePage Chip.wholeEntry
  rw [if_neg (by omega)]
  simp only [hbase, shiftLeft_eq, mul_comm _ 2, eslcMapTable_get hlt]
  split
  · rw [add_assoc]
  · rfl

lemma Chip.Layout.eslcWholePage_self_iff (page : Nat) : eslcWholePage c page = some (.page page) ↔
      page < 4 ∧ page < c.pagecnt ∧ ¬ (c.probEnd = 0 ∧ page + 1 = c.pagecnt) := by
  have hpos := hl.pagecnt_pos
  have hdiv := div_add_mod page c.pagecnt
  rw [hl.eslcWholePage_eq hc, some_inj, Target.page.injEq]
  constructor
  · intro heq
    -- the translation adds the pages of the blocks before
    have hfirst : c.pagecnt * (page / c.pagecnt) = 0 := by
      rcases c.wholeEntry_cases (page % c.pagecnt) with ⟨-, -, h⟩ | ⟨-, h, -⟩ <;> omega
    have hmod : page % c.pagecnt = page := by omega
    have hlt := mod_lt page hpos
    rw [hmod] at heq
    rcases c.wholeEntry_cases page with ⟨-, -, h⟩ | ⟨hlast, -, h⟩
    · omega
    · exact ⟨h.mp (by omega), by omega, fun hend => hlast ⟨hend.1, by omega⟩⟩
  rintro ⟨hfour, hlt, hlast⟩
  rw [div_eq_of_lt hlt, mod_eq_of_lt hlt, Nat.mul_zero, Nat.zero_add]
  rcases c.wholeEntry_cases page with ⟨h0, hend, -⟩ | ⟨-, -, h⟩
  · exact absurd ⟨h0, by omega⟩ hlast
  · exact h.mpr hfour

lemma Chip.Layout.eslcWholePage_twice_iff (hrun : eslcWholePage c page = some (.page q)) :
    eslcWholePage c q = some (.page q) ↔
      page < 4 ∧ page < c.pagecnt ∧ ¬ (c.probEnd = 0 ∧ page + 1 = c.pagecnt) := by
  have hdiv := div_add_mod page c.pagecnt
  have hself := hl.eslcWholePage_self_iff hc page
  constructor
  · intro hq
    obtain ⟨hfour, hlt, -⟩ := (hl.eslcWholePage_self_iff hc q).mp hq
    have heq := hrun
    rw [hl.eslcWholePage_eq hc, some_inj, Target.page.injEq] at heq
    have hsame : page = q := by
      rcases c.wholeEntry_cases (page % c.pagecnt) with ⟨-, hend, h⟩ | ⟨-, hle, h⟩
      · omega
      have hfirst : c.pagecnt * (page / c.pagecnt) = 0 := by
        rcases Nat.eq_zero_or_pos (page / c.pagecnt) with h0 | h0
        · rw [h0, mul_zero]
        · have := Nat.le_mul_of_pos_right c.pagecnt h0
          omega
      omega
    rw [hsame] at hself ⊢
    exact hself.mp hq
  intro hcond
  have hpage := hself.mpr hcond
  rw [hrun, some_inj, Target.page.injEq] at hpage
  rw [hpage] at hrun ⊢
  exact hrun

end

/-! ### The functions of the driver -/

section
variable {c : Chip} {page : Nat}

section
variable (hw : wmtNandWritePage c page = some w)
include hw

lemma writePageCmd_page (ht : w.target = .page q) (command : Command) :
    writePageCmd c command page = wmtNandCmdfunc c command q := by
  rw [writePageCmd, hw, bind_some, ht]

lemma writePageCmd_skip
    (ht : w.target = .skip) (command : Command) : writePageCmd c command page = some .skip := by
  rw [writePageCmd, hw, bind_some, ht]

lemma writePageErase_of_none (he : w.erase = none) : writePageErase c page = some .skip := by
  rw [writePageErase, hw, bind_some, he]

end

lemma Chip.Hynix.not_whole (hc : c.Hynix) : ¬ c.Whole := fun h => hc.2.2 h.2.2

lemma Chip.Hynix.id_ne (hc : c.Hynix) : c.id ≠ 0xECDED57A := by
  intro hid
  have h := hc.2.1
  rw [hid] at h
  exact absurd h (by decide)

lemma Chip.Whole.id_ne (hc : c.Whole) : c.id ≠ 0xECDED57A := by
  rw [hc.2.1]
  decide

section
variable (hw : ¬ c.Whole) (hp : ¬ (c.Hynix ∧ page < c.par4Ofs))
include hw hp

lemma writePage_stays : ∃ w, wmtNandWritePage c page = some w ∧ w.target = .page page ∧
    w.erase = none := by
  simp only [wmtNandWritePage, if_neg hw]
  by_cases hc : c.Hynix
  · rw [if_pos hc, if_neg (fun h => hp ⟨hc, h⟩)]
    split
    · exact ⟨_, rfl, by split <;> rfl, by split <;> rfl⟩
    · split
      · exact ⟨_, rfl, rfl, rfl⟩
      · exact ⟨_, rfl, rfl, rfl⟩
  · rw [if_neg hc]
    exact ⟨_, rfl, rfl, rfl⟩

lemma readPage_stays : wmtNandReadPage c page = some (.page page) := by
  rw [wmtNandReadPage, if_neg hw]
  split
  · next h => rw [if_neg (fun hlt => hp ⟨h.2, hlt⟩)]
  · rfl

lemma cmdfunc_stays (hid : c.id ≠ 0xECDED57A) (command : Command) :
    wmtNandCmdfunc c command page = some (.page page) := by
  rw [wmtNandCmdfunc, if_neg hid, if_neg (fun h => hw h.1)]
  split
  · next h => rw [if_neg (fun hlt => hp ⟨h.2.2, hlt⟩)]
  · rfl

end

section
variable (hc : c.Hynix) (hpar : page < c.par4Ofs)
include hc hpar

lemma Chip.Hynix.cmdfunc_eq (command : Command) : wmtNandCmdfunc c command page
      = if command = .read0 ∧ c.probEnd = 1 then eslcPartPage c page else some (.page page) := by
  rw [wmtNandCmdfunc, if_neg hc.id_ne, if_neg (fun h => hc.not_whole h.1), if_pos hpar]
  simp [hc]

lemma Chip.Hynix.readPage_eq : wmtNandReadPage c page
      = if c.probEnd = 1 then eslcPartPage c page else some (.page page) := by
  rw [wmtNandReadPage, if_neg hc.not_whole, if_pos hpar]
  simp [hc]

lemma Chip.Hynix.writePage_eq {t : Target}
    (ht : eslcPartPage c page = some t) : ∃ w, wmtNandWritePage c page = some w ∧ w.target = t ∧
      (w.erase = none ∨ ∃ q, t = .page q ∧ w.erase = some q) := by
  simp only [wmtNandWritePage, if_neg hc.not_whole, if_pos hc, if_pos hpar, ht]
  refine ⟨_, rfl, ?_⟩
  cases t with
  | skip => exact ⟨rfl, .inl rfl⟩
  | page q =>
    by_cases hmode : c.eslcWrite ≠ 2
    · by_cases hfirst : page % (c.pagecnt / 2) = 0 <;> simp [hmode, hfirst]
    · by_cases hfirst : page % (c.pagecnt / 2) = 0 <;> simp [hmode, hfirst]

end

end

/-! ### The agreement -/

lemma sub_mod_div (page n : Nat) : (page - page % n) / n = page / n := by
  rcases Nat.eq_zero_or_pos n with rfl | hpos
  · rw [Nat.div_zero, Nat.div_zero]
  · have h : page - page % n = n * (page / n) := (Nat.eq_sub_of_add_eq (div_add_mod page n)).symm
    rw [h, Nat.mul_div_cancel_left _ hpos]

section
variable {c : Chip} {page : Nat}

lemma blockPages_of_not_whole (hw : ¬ c.Whole) : c.blockPages = c.pagecnt := if_neg hw

lemma inBlock_first (hw : ¬ c.Whole) :
    c.InBlock (.page (page - page % c.pagecnt)) (.page page) := by
  show _ / c.blockPages = _ / c.blockPages
  rw [blockPages_of_not_whole hw, sub_mod_div]

/-- The other functions agree that the page is at `q`. -/
def Chip.AllAt (c : Chip) (page q : Nat) : Prop :=
  wmtNandCmdfunc c .read0 page = some (.page q) ∧ wmtNandReadPage c page = some (.page q) ∧
    wmtNandCmdfunc c .read0 q = some (.page q) ∧
    ∃ e, singleEraseCmd c (page - page % c.pagecnt) = some e ∧ c.InBlock e (.page q)

/-- The page is programmed at `q`. Everything else has to agree with that. -/
theorem consistent_iff (hw : wmtNandWritePage c page = some w) (ht : w.target = .page q)
    (he : w.erase = none ∨ w.erase = some q ∧ wmtNandCmdfunc c .erase1 q = some (.page q))
    (hseqin : wmtNandCmdfunc c .seqin q = some (.page q)) : (∃ t, c.Consistent page t) ↔
      c.AllAt page q := by
  have hcmd := writePageCmd_page hw ht
  constructor
  · rintro ⟨t, h⟩
    obtain rfl := Option.some.inj (h.program.symm.trans ((hcmd _).trans hseqin))
    exact ⟨h.read0, h.readPage, (hcmd _).symm.trans h.verify, h.eraseBlock⟩
  rintro ⟨hread, hdata, hverify, hblock⟩
  refine ⟨_, hread, hdata, (hcmd _).trans hseqin, (hcmd _).trans hverify, ?_, hblock⟩
  rcases he with hnone | ⟨hsome, herase⟩
  · exact ⟨_, writePageErase_of_none hw hnone, trivial⟩
  · refine ⟨.page q, ?_, rfl⟩
    rw [writePageErase, hw, bind_some, hsome]
    exact herase

/-- The chip with the offset: the offset is on the bus only. -/
theorem consistent_offset (hid : c.id = 0xECDED57A) : (∃ t, c.Consistent page t) ↔
    page < 4096 * 128 := by
  have hw : ¬ c.Whole := fun h => h.id_ne hid
  have hp : ¬ (c.Hynix ∧ page < c.par4Ofs) := fun h => h.1.id_ne hid
  have hcmd : ∀ command q, wmtNandCmdfunc c command q
      = if q ≥ 4096 * 128 then some (.page (q + 0x80000)) else some (.page q) := by
    intro command q
    rw [wmtNandCmdfunc, if_pos hid]
  constructor
  · rintro ⟨t, h⟩
    by_contra hge
    have hread := h.read0
    have hdata := h.readPage
    rw [hcmd, if_pos (Nat.le_of_not_lt hge)] at hread
    rw [readPage_stays hw hp, ← hread, some_inj, Target.page.injEq] at hdata
    omega
  intro hlt
  have hstay : ∀ command q, q ≤ page → wmtNandCmdfunc c command q = some (.page q) := by
    intro command q hq
    rw [hcmd, if_neg (by omega)]
  have hblock : singleEraseCmd c (page - page % c.pagecnt) =
      some (.page (page - page % c.pagecnt)) := by
    rw [singleEraseCmd, if_neg, hstay _ _ (sub_le _ _)]
    rintro ⟨-, hmfr, -⟩
    rw [hid] at hmfr
    exact absurd hmfr (by decide)
  obtain ⟨w, hwrite, ht, he⟩ := writePage_stays hw hp
  have hpage := fun command => hstay command page (Nat.le_refl _)
  exact (consistent_iff hwrite ht (.inl he) (hpage _)).mpr
    ⟨hpage _, readPage_stays hw hp, hpage _, _, hblock, inBlock_first hw⟩

lemma consistent_stays (hid : c.id ≠ 0xECDED57A) (hw : ¬ c.Whole)
    (hp : ¬ (c.Hynix ∧ page < c.par4Ofs)) : ∃ t, c.Consistent page t := by
  obtain ⟨w, hwrite, ht, he⟩ := writePage_stays hw hp
  have hcmd := cmdfunc_stays hw hp hid
  refine (consistent_iff hwrite ht (.inl he) (hcmd _)).mpr
    ⟨hcmd _, readPage_stays hw hp, hcmd _, ?_⟩
  -- the first page of the block may be in the last partition, and is spared then
  rw [singleEraseCmd]
  split
  · exact ⟨_, rfl, trivial⟩
  · rw [wmtNandCmdfunc, if_neg hid, if_neg (fun h => hw h.1)]
    exact ⟨_, rfl, inBlock_first hw⟩

lemma Chip.Layout.consistent_whole {s : Nat} (hl : c.Layout s) (hc : c.Whole) :
    (∃ t, c.Consistent page t) ↔
      page < 4 ∧ page < c.pagecnt ∧ ¬ (c.probEnd = 0 ∧ page + 1 = c.pagecnt) := by
  have hpos := hl.pagecnt_pos
  have hcmd : ∀ command q, command ≠ .seqin → wmtNandCmdfunc c command q = eslcWholePage c q := by
    intro command q hne
    rw [wmtNandCmdfunc, if_neg hc.id_ne, if_pos ⟨hc, hne⟩]
  have hseqin : ∀ q, wmtNandCmdfunc c .seqin q = some (.page q) := by
    intro q
    rw [wmtNandCmdfunc, if_neg hc.id_ne, if_neg (by simp), if_neg (by simp)]
  obtain ⟨q, hq⟩ : ∃ q, eslcWholePage c page = some (.page q) := ⟨_, hl.eslcWholePage_eq hc page⟩
  obtain ⟨w, hwrite, ht, he⟩ : ∃ w, wmtNandWritePage c page = some w ∧ w.target = .page q ∧
    w.erase = none := by
    rw [wmtNandWritePage, if_pos hc, hq]
    exact ⟨_, rfl, rfl, rfl⟩
  rw [← hl.eslcWholePage_twice_iff hc hq, consistent_iff hwrite ht (.inl he) (hseqin q),
    Chip.AllAt, hcmd _ _ (by decide), hcmd _ _ (by decide), wmtNandReadPage, if_pos hc]
  refine ⟨fun h => h.2.2.1, fun h => ⟨hq, hq, h, ?_⟩⟩
  rw [singleEraseCmd, if_neg (fun h => by have := hc.2.2; omega), hcmd _ _ (by decide),
    hl.eslcWholePage_eq hc]
  rw [hl.eslcWholePage_eq hc, some_inj, Target.page.injEq] at hq
  refine ⟨_, rfl, ?_⟩
  show _ / c.blockPages = _ / c.blockPages
  have hblock : ∀ p, (2 * (c.pagecnt * (p / c.pagecnt)) + c.wholeEntry (p % c.pagecnt))
      / c.blockPages = p / c.pagecnt := by
    intro p
    have hlt := c.wholeEntry_lt (mod_lt p hpos)
    rw [Chip.blockPages, if_pos hc, ← mul_assoc, mul_add_div (by omega),
      div_eq_of_lt hlt, add_zero]
  rw [← hq, hblock, hblock, sub_mod_div]

end

section
variable {c : Chip} {s : Nat} (hl : c.Layout s) (hc : c.Hynix) {page : Nat}
  (hpage : page < 2 ^ 31) (hpar : page < c.par4Ofs)
include hl hc hpage hpar

omit hl hpage in
lemma Chip.Hynix.singleErase_eq : singleEraseCmd c (page - page % c.pagecnt)
      = if c.wholeEslc = 0 ∧ c.probEnd = 1 then some .skip
        else some (.page (page - page % c.pagecnt)) := by
  have hlt : page - page % c.pagecnt < c.par4Ofs := lt_of_le_of_lt (sub_le _ _) hpar
  rw [singleEraseCmd, hc.cmdfunc_eq hlt]
  simp only [hc.1, hc.2.1, hlt, true_and, and_true, reduceCtorEq, false_and, if_false]

omit hl hpage in
lemma Chip.Hynix.consistent_iff (hq : q < c.par4Ofs) (hrun : eslcPartPage c page = some (.page q)) :
    (∃ t, c.Consistent page t) ↔ c.AllAt page q := by
  have hcmd : ∀ command, command ≠ .read0 → wmtNandCmdfunc c command q = some (.page q) := by
    intro command hne
    rw [hc.cmdfunc_eq hq, if_neg (fun h => hne h.1)]
  obtain ⟨w, hwrite, ht, he⟩ := hc.writePage_eq hpar hrun
  refine Nand.consistent_iff hwrite ht (he.imp_right ?_) (hcmd _ (by decide))
  rintro ⟨q', hq', hsome⟩
  cases hq'
  exact ⟨hsome, hcmd _ (by decide)⟩

lemma Chip.Layout.consistent_probing (hprob : c.probEnd ≠ 1) : (∃ t, c.Consistent page t) ↔
      ¬ c.Rejected page ∧ c.Still page ∧ c.Good (page / c.pagecnt) := by
  have hread : ∀ q, q < c.par4Ofs → wmtNandCmdfunc c .read0 q = some (.page q) := by
    intro q hq
    rw [hc.cmdfunc_eq hq, if_neg (fun h => hprob h.2)]
  rw [← hl.eslcPartPage_self_iff hc hpage hpar]
  rcases hl.eslcPartPage_split hc hpage hpar with ⟨-, hrun⟩ | ⟨-, i, -, -, hrun, -⟩
  · -- the page is read, but not programmed
    obtain ⟨w, hwrite, hskip, -⟩ := hc.writePage_eq hpar hrun
    refine iff_of_false ?_ (by rw [hrun]; simp)
    rintro ⟨t, h⟩
    have hprogram := h.program
    rw [writePageProgram, writePageCmd_skip hwrite hskip, ← h.read0, hread _ hpar] at hprogram
    cases hprogram
  have hqpar := (hl.eslcPartPage_lt hc hpage hpar hrun).2
  rw [hc.consistent_iff hpar hqpar hrun, Chip.AllAt, hrun, hread _ hpar, hc.readPage_eq hpar,
    if_neg hprob,
    hread _ hqpar, hc.singleErase_eq hpar, if_neg (fun h => hprob h.2)]
  constructor
  · rintro ⟨hsame, -⟩
    exact hsame.symm
  · intro hsame
    rw [Target.page.inj (Option.some.inj hsame)]
    exact ⟨rfl, rfl, rfl, _, rfl, inBlock_first hc.not_whole⟩

/-- The partitions after the probe: the verification translates a second time, and the block of the
untranslated page is erased unless `whole_eslc` is `0`. -/
theorem Chip.Layout.consistent_probed (hprob : c.probEnd = 1) : (∃ t, c.Consistent page t) ↔
      if c.wholeEslc = 0 then c.Rejected page ∨ c.Still page
      else ¬ c.Rejected page ∧ c.Still page ∧ c.Good (page / c.pagecnt) := by
  have hread : ∀ q, q < c.par4Ofs → wmtNandCmdfunc c .read0 q = eslcPartPage c q := by
    intro q hq
    rw [hc.cmdfunc_eq hq, if_pos ⟨rfl, hprob⟩]
  have hdata : wmtNandReadPage c page = eslcPartPage c page := by
    rw [hc.readPage_eq hpar, if_pos hprob]
  have herase := hc.singleErase_eq hpar
  have hself := hl.eslcPartPage_self_iff hc hpage hpar
  rcases hl.eslcPartPage_split hc hpage hpar with ⟨hrej, hrun⟩ | ⟨hrej, i, -, -, hrun, -⟩
  · -- a skipped page: nothing may be erased
    obtain ⟨w, hwrite, ht, he⟩ := hc.writePage_eq hpar hrun
    have hnone : w.erase = none := by
      rcases he with h | ⟨q, hq, -⟩
      · exact h
      · cases hq
    by_cases hwhole : c.wholeEslc = 0
    · rw [if_pos hwhole]
      refine iff_of_true ⟨.skip, (hread _ hpar).trans hrun, hdata.trans hrun,
        writePageCmd_skip hwrite ht _, writePageCmd_skip hwrite ht _,
        ⟨_, writePageErase_of_none hwrite hnone, trivial⟩, ?_⟩ (.inl hrej)
      rw [herase, if_pos ⟨hwhole, hprob⟩]
      exact ⟨_, rfl, trivial⟩
    rw [if_neg hwhole]
    refine iff_of_false ?_ (fun h => h.1 hrej)
    rintro ⟨t, h⟩
    have ht := h.read0
    rw [hread _ hpar, hrun, some_inj] at ht
    obtain ⟨e, he, hin⟩ := h.eraseBlock
    rw [herase, if_neg (fun h => hwhole h.1), some_inj] at he
    rw [← he, ← ht] at hin
    exact hin
  generalize hq : i * c.pagecnt + eslcEntry (page % (c.pagecnt / 2)) = q at hrun
  have hqpar := (hl.eslcPartPage_lt hc hpage hpar hrun).2
  have hqlt : q < 2 ^ 31 := lt_trans hqpar hl.par4
  have htwice := hl.eslcPartPage_twice_iff hc hpage hpar hrun
  rw [hc.consistent_iff hpar hqpar hrun, Chip.AllAt, hread _ hpar, hdata, hread _ hqpar, herase,
    hrun]
  by_cases hwhole : c.wholeEslc = 0
  · rw [if_pos hwhole, if_pos ⟨hwhole, hprob⟩, or_iff_right hrej, ← htwice]
    exact ⟨fun h => h.2.2.1, fun h => ⟨rfl, rfl, h, _, rfl, trivial⟩⟩
  rw [if_neg hwhole, if_neg (fun h => hwhole h.1)]
  constructor
  · rintro ⟨-, -, hfix, e, he, hin⟩
    cases he
    have hblk : page / c.pagecnt = q / c.pagecnt := by
      have hdiv : (page - page % c.pagecnt) / c.blockPages = q / c.blockPages := hin
      rwa [blockPages_of_not_whole hc.not_whole, sub_mod_div] at hdiv
    rw [hblk]
    exact ⟨hrej, htwice.mp hfix, ((hl.eslcPartPage_self_iff hc hqlt hqpar).mp hfix).2.2⟩
  intro h
  have hstay := hself.mpr h
  rw [hrun, some_inj, Target.page.injEq] at hstay
  rw [hstay] at hrun ⊢
  exact ⟨rfl, rfl, hrun, _, rfl, inBlock_first hc.not_whole⟩

end

/-- For every chip, partition layout, bad-block table and mode, and every page: the functions agree
on one page and its block exactly on the pages of `Chip.Settled`. -/
theorem consistent_iff_settled {c : Chip} {s : Nat} (hl : c.Layout s) {page : Nat}
    (hpage : page < 2 ^ 31) : (∃ t, c.Consistent page t) ↔ c.Settled page := by
  unfold Chip.Settled
  by_cases hid : c.id = 0xECDED57A
  · rw [if_pos hid]
    exact consistent_offset hid
  rw [if_neg hid]
  by_cases hw : c.Whole
  · rw [if_pos hw]
    exact hl.consistent_whole hw
  rw [if_neg hw]
  by_cases hp : c.Hynix ∧ page < c.par4Ofs
  · rw [if_pos hp]
    by_cases hprob : c.probEnd = 1
    · simp only [hprob, true_and]
      exact hl.consistent_probed hp.1 hpage hp.2 hprob
    · rw [if_neg (fun h => hprob h.1)]
      exact hl.consistent_probing hp.1 hpage hp.2 hprob
  · rw [if_neg hp]
    exact iff_of_true (consistent_stays hid hw hp) trivial

theorem fourBlocks_consistent : wmtNandCmdfunc fourBlocks .read0 256 = some (.page 256) ∧
      ∃ t, fourBlocks.Consistent 256 t := by
  have hl : fourBlocks.Layout 8 :=
    ⟨by decide +kernel, by decide, by decide, by decide, by decide, by decide, by decide, by decide⟩
  have hsettled : fourBlocks.Settled 256 := by
    have hstill : fourBlocks.Still 256 := by decide +kernel
    exact .inr hstill
  exact ⟨by decide +kernel, (consistent_iff_settled hl (by decide)).mpr hsettled⟩

def probing : Chip := { fourBlocks with probEnd := 0 }

/-- Page 384 is programmed at 512 and read back at 768. Before the end of the probe it is read at
384 and programmed at 512, and the blocks of 256 and of 512 are erased. -/
theorem fourBlocks_verify_elsewhere : writePageProgram fourBlocks 384 = some (.page 512) ∧
    writePageVerify fourBlocks 384 = some (.page 768) ∧ (¬ ∃ t, fourBlocks.Consistent 384 t) ∧
    wmtNandCmdfunc probing .read0 384 = some (.page 384) ∧
    writePageProgram probing 384 = some (.page 512) ∧
    writePageErase probing 384 = some (.page 512) ∧
    singleEraseCmd probing 256 = some (.page 256) := by
  have hprogram : writePageProgram fourBlocks 384 = some (.page 512) := by decide +kernel
  have hverify : writePageVerify fourBlocks 384 = some (.page 768) := by decide +kernel
  refine ⟨hprogram, hverify, ?_, by decide +kernel⟩
  rintro ⟨t, h⟩
  have hsame := h.program.symm.trans hprogram
  rw [h.verify, hsame] at hverify
  exact absurd hverify (by decide)

end Wm8850.Nand
