import Mathlib.Tactic.Ring
import Wm8850.Nand.Eslc

/-! # The blocks that the ESLC translation takes

A page in the half `h` of a block of rank `r` among the good blocks goes to the good block of rank
`2 * r + h` (`eslcPartPage_eq`). A partition that starts inside a block shares it with the one
before; there the difference of the block numbers is one too low, and `-1` in the shared block
(`Chip.bound`). -/

namespace Wm8850.Nand

open Lib Nat Option

/-- The block is not marked bad. -/
def Chip.Good (c : Chip) (block : Nat) : Prop := wmtIsbadBbt c block = 0

instance (c : Chip) : DecidablePred c.Good := fun block =>
  inferInstanceAs (Decidable (wmtIsbadBbt c block = 0))

def Chip.baseBlk (c : Chip) (page : Nat) : Nat := (c.basePages page).1 / c.pagecnt

/-- The block behind the partition of the page. -/
def Chip.baseBlkEnd (c : Chip) (page : Nat) : Nat := (c.basePages page).2 / c.pagecnt

def Chip.goodBlks (c : Chip) (page n : Nat) : Nat :=
  Nat.count (fun j => c.Good (c.baseBlk page + j)) n

/-- How many good blocks of the partition are before the block of the page. -/
def Chip.rank (c : Chip) (page : Nat) : Nat :=
  c.goodBlks page (page / c.pagecnt - c.baseBlk page)

/-- The good blocks of the partition. -/
def Chip.total (c : Chip) (page : Nat) : Nat :=
  c.goodBlks page (c.baseBlkEnd page - c.baseBlk page)

/-- `1` for the second half of a block. -/
def Chip.half (c : Chip) (page : Nat) : Nat := if page % c.pagecnt ≥ c.pagecnt / 2 then 1 else 0

/-- Whether the partition of the page starts inside a block. -/
def Chip.shared (c : Chip) (page : Nat) : Nat :=
  if c.pagecnt ∣ (c.basePages page).1 then 0 else 1

/-- The bound of the second loop, `blk_ofs + 1`. -/
def Chip.bound (c : Chip) (page : Nat) : Nat :=
  if c.shared page ≤ c.rank page then 2 * (c.rank page - c.shared page) + c.half page + 1
  else if c.half page = 1 then 0 else wordSize - 1

/-! ### The table -/

/-- `eslc_map_table` in closed form. -/
def eslcEntry (x : Nat) : Nat := if x < 4 then x else 2 * x - 2 - x % 2

variable {page : Nat} {q : Nat} {s : Nat} {c : Chip}

lemma eslcMapTable_get {x : Nat} (hx : x < 128) : eslcMapTable[x]? = some (eslcEntry x) := by
  have h : ∀ y : Fin 128, eslcMapTable[y.val]? = some (eslcEntry y.val) := by decide
  exact h ⟨x, hx⟩

lemma eslcEntry_inj {x y : Nat} (h : eslcEntry x = eslcEntry y) : x = y := by
  simp only [eslcEntry] at h
  split at h <;> split at h <;> omega

lemma eslcEntry_lt {x n : Nat} (hx : x < n / 2) : eslcEntry x < n := by
  unfold eslcEntry
  split <;> omega

/-! ### The loops -/

section
variable {c : Chip} {s : Nat} (hs : c.pagecnt = 2 ^ s)
include hs

lemma blkPageShift_eq : c.blkPageShift = s := by
  unfold Chip.pagecnt at hs
  rcases lt_or_ge c.physEraseShift c.pageShift with hlt | hle
  · have hpos := Nat.two_pow_pos s
    rw [div_eq_of_lt (Nat.pow_lt_pow_right (by decide) hlt)] at hs
    omega
  · rw [Nat.pow_div hle (by decide)] at hs
    exact Nat.pow_right_injective (le_refl 2) hs

end

lemma basePages_cases (c : Chip) (page : Nat) :
    (page < c.par1Ofs ∧ c.basePages page = (0, c.par1Ofs)) ∨
    (c.par1Ofs ≤ page ∧ page < c.par2Ofs ∧ c.basePages page = (c.par1Ofs, c.par2Ofs)) ∨
    (c.par1Ofs ≤ page ∧ c.par2Ofs ≤ page ∧ page < c.par3Ofs ∧
      c.basePages page = (c.par2Ofs, c.par3Ofs)) ∨
    (c.par1Ofs ≤ page ∧ c.par2Ofs ≤ page ∧ c.par3Ofs ≤ page ∧
      c.basePages page = (c.par3Ofs, c.par4Ofs)) := by
  unfold Chip.basePages
  by_cases h1 : page < c.par1Ofs
  · simp [h1]
  by_cases h2 : page < c.par2Ofs
  · simp [h2, Nat.le_of_not_lt h1]
  · by_cases h3 : page < c.par3Ofs
    · simp [h1, h3, Nat.le_of_not_lt h1, Nat.le_of_not_lt h2]
    · simp [h1, h2, Nat.le_of_not_lt h1, Nat.le_of_not_lt h2, Nat.le_of_not_lt h3]

lemma basePages_spec (h : page < c.par4Ofs) :
    (c.basePages page).1 ≤ page ∧ page < (c.basePages page).2 := by
  rcases basePages_cases c page with ⟨hp, heq⟩ | ⟨h1, hp, heq⟩ | ⟨-, h2, hp, heq⟩ | ⟨-, -, h3, heq⟩
  · rw [heq]
    exact ⟨Nat.zero_le _, hp⟩
  · rw [heq]
    exact ⟨h1, hp⟩
  · rw [heq]
    exact ⟨h2, hp⟩
  · rw [heq]
    exact ⟨h3, h⟩

lemma half_le (c : Chip) (page : Nat) : c.half page ≤ 1 := by
  unfold Chip.half
  split <;> omega

lemma ranks_congr (h : c.basePages q = c.basePages page) :
    c.baseBlk q = c.baseBlk page ∧ c.shared q = c.shared page ∧ c.total q = c.total page ∧
      c.goodBlks q = c.goodBlks page := by
  have hblk : c.baseBlk q = c.baseBlk page := by rw [Chip.baseBlk, Chip.baseBlk, h]
  have hend : c.baseBlkEnd q = c.baseBlkEnd page := by rw [Chip.baseBlkEnd, Chip.baseBlkEnd, h]
  have hgood : c.goodBlks q = c.goodBlks page := by
    funext n
    rw [Chip.goodBlks, Chip.goodBlks, hblk]
  refine ⟨hblk, ?_, ?_, hgood⟩
  · rw [Chip.shared, Chip.shared, h]
  · rw [Chip.total, Chip.total, hgood, hblk, hend]

lemma eq_of_goodBlks_eq {i j : Nat} (hi : c.baseBlk page ≤ i)
    (hj : c.baseBlk page ≤ j) (hgi : c.Good i) (hgj : c.Good j)
    (h : c.goodBlks page (i - c.baseBlk page) = c.goodBlks page (j - c.baseBlk page)) : i = j := by
  rw [← Nat.add_sub_cancel' hi] at hgi
  rw [← Nat.add_sub_cancel' hj] at hgj
  have heq := count_injective (p := fun k => c.Good (c.baseBlk page + k)) hgi hgj h
  omega

lemma baseBlk_le (hpar : page < c.par4Ofs) : c.baseBlk page ≤ page / c.pagecnt :=
  Nat.div_le_div_right (basePages_spec hpar).1

lemma baseBlk_le_end (hpar : page < c.par4Ofs) : c.baseBlk page ≤ c.baseBlkEnd page := by
  have h := basePages_spec hpar
  exact Nat.div_le_div_right (by omega)

lemma shift_sub_eq {lo k : Nat} (hlo : lo / 2 ^ s ≤ k) : (((2 ^ s * k : Nat) : Int) - lo) >>> s
      = ((k - lo / 2 ^ s : Nat) : Int) - (if 2 ^ s ∣ lo then 0 else 1 : Nat) := by
  have hpos := Nat.two_pow_pos s
  have hsplit := div_add_mod lo (2 ^ s)
  rw [Int.shiftRight_eq_div_pow]
  generalize hb : lo / 2 ^ s = b at *
  generalize hr : lo % 2 ^ s = r at *
  have hrlt : r < 2 ^ s := hr ▸ mod_lt lo hpos
  have hdvd : 2 ^ s ∣ lo ↔ r = 0 := by rw [dvd_iff_mod_eq_zero, hr]
  simp only [hdvd]
  generalize 2 ^ s = n at *
  have hk : ((n * k : Nat) : Int) - lo = -(r : Int) + n * ((k - b : Nat) : Int) := by
    rw [← hsplit]
    push_cast [hlo]
    ring
  rw [hk, Int.add_mul_ediv_left _ _ (by omega)]
  by_cases hr0 : r = 0
  · simp [hr0]
  rw [if_neg hr0]
  have hneg : -(r : Int) = ((n : Int) - r) + (-1) * n := by ring
  rw [hneg, Int.add_mul_ediv_right _ _ (by omega), Int.ediv_eq_zero_of_lt (by omega) (by omega)]
  ring

lemma blkOfs_eq {n a cnt h bad : Nat} (ha : a ≤ 1) (hh : h ≤ 1) (hn : n < 2 ^ 30)
    (hbad : bad + cnt = n) : wadd (wadd (wsub (((n : Int) - a) % wordSize).toNat bad * 2) h) 1
      = if a ≤ cnt then 2 * (cnt - a) + h + 1 else if h = 1 then 0 else wordSize - 1 := by
  unfold wadd wsub wordSize
  split
  · omega
  · split <;> omega

section
variable (hs : c.pagecnt = 2 ^ s) (h1 : 1 ≤ s) (h8 : s ≤ 8) (hpage : page < 2 ^ 31)
  (hpar : page < c.par4Ofs)
include hs h1 h8 hpage hpar

/-- The block is the one where the count of good blocks reaches the bound, and the page in it is
from the table.
-/
theorem eslcPartPage_eq : eslcPartPage c page = some (
          let i := reachLoop c.Good (c.bound page) (c.baseBlkEnd page - c.baseBlk page)
            (c.baseBlk page) 0
          if c.baseBlkEnd page ≤ i then .skip
          else .page (i * c.pagecnt + eslcEntry (page % (c.pagecnt / 2)))) := by
  have hshift := blkPageShift_eq hs
  have hpos := Nat.two_pow_pos s
  have htwo : 2 ^ s = 2 * 2 ^ (s - 1) := by
    rw [← Nat.pow_succ', succ_eq_add_one, Nat.sub_add_cancel h1]
  have hhalf : c.pagecnt / 2 = 2 ^ (s - 1) := by
    rw [hs, htwo, Nat.mul_div_cancel_left _ (by decide)]
  -- The block of the page, and the difference to the start of the partition.
  have hbase : page - page % c.pagecnt = 2 ^ s * (page / 2 ^ s) := by
    rw [hs]
    exact (Nat.eq_sub_of_add_eq (div_add_mod page (2 ^ s))).symm
  have hblk : (2 ^ s * (page / 2 ^ s)) >>> s = page / 2 ^ s := by
    rw [shiftRight_eq_div_pow, Nat.mul_div_cancel_left _ hpos]
  have hlo : (c.basePages page).1 / 2 ^ s ≤ page / 2 ^ s :=
    Nat.div_le_div_right (basePages_spec hpar).1
  have hk : page / 2 ^ s < 2 ^ 30 := by
    rw [Nat.div_lt_iff_lt_mul hpos]
    omega
  have hbad := countLoop_not (fun j => wmtIsbadBbt c j = 0)
    (page / 2 ^ s - (c.basePages page).1 / 2 ^ s) ((c.basePages page).1 / 2 ^ s)
  have hbound := (blkOfs_eq (a := if 2 ^ s ∣ (c.basePages page).1 then 0 else 1)
    (h := if page % c.pagecnt ≥ c.pagecnt / 2 then 1 else 0) (by split <;> omega)
    (by split <;> omega) (lt_of_le_of_lt (sub_le _ _) hk) hbad).trans
    (show _ = c.bound page by
      rw [Chip.bound, Chip.half, Chip.shared, Chip.rank, Chip.goodBlks, Chip.baseBlk, hs]; rfl)
  have hentry : eslcMapTable[page % c.pagecnt % (c.pagecnt / 2)]?
      = some (eslcEntry (page % (c.pagecnt / 2))) := by
    have hdvd : c.pagecnt / 2 ∣ c.pagecnt := ⟨2, by rw [hhalf, hs, htwo, mul_comm]⟩
    rw [mod_mod_of_dvd _ hdvd]
    refine eslcMapTable_get (lt_of_lt_of_le (mod_lt _ (by omega)) ?_)
    rw [hhalf]
    exact Nat.pow_le_pow_right (n := 2) (by decide) (by omega : s - 1 ≤ 7)
  unfold eslcPartPage
  rw [if_neg (by omega)]
  simp only [hshift, hbase, hblk, hentry, shiftRight_eq_div_pow _ s, shiftLeft_eq]
  rw [shift_sub_eq hlo, hbound, Chip.baseBlkEnd, Chip.baseBlk, hs]
  by_cases hend : (c.basePages page).2 / 2 ^ s ≤ reachLoop c.Good (c.bound page)
      ((c.basePages page).2 / 2 ^ s - (c.basePages page).1 / 2 ^ s)
      ((c.basePages page).1 / 2 ^ s) 0
  · exact (if_pos hend).trans (congrArg some (if_pos hend).symm)
  · exact (if_neg hend).trans (congrArg some (if_neg hend).symm)

/-- Where the translation puts a page outside the shared block: in the good block whose rank is
twice the rank of the page's block, and one more for the second half. It skips the page exactly when
the partition has too few good blocks. -/
theorem eslcPartPage_cases (hrank : c.shared page ≤ c.rank page) :
    (c.total page ≤ 2 * (c.rank page - c.shared page) + c.half page ∧
      eslcPartPage c page = some .skip) ∨
    ∃ j, c.baseBlk page + j < c.baseBlkEnd page ∧ c.Good (c.baseBlk page + j) ∧
      c.goodBlks page j = 2 * (c.rank page - c.shared page) + c.half page ∧
      2 * (c.rank page - c.shared page) + c.half page < c.total page ∧ eslcPartPage c page
        = some (.page ((c.baseBlk page + j) * c.pagecnt + eslcEntry (page % (c.pagecnt / 2)))) := by
  have hbound : c.bound page = 2 * (c.rank page - c.shared page) + c.half page + 1 := if_pos hrank
  have hspan := baseBlk_le_end hpar
  rw [eslcPartPage_eq hs h1 h8 hpage hpar, hbound]
  rcases reachLoop_select c.Good (succ_pos _) (c.baseBlkEnd page - c.baseBlk page)
    (c.baseBlk page) with ⟨hfew, hrun⟩ | ⟨j, hj, hrun, hgood, hcount, hmany⟩
  · refine .inl ⟨le_of_lt_succ hfew, ?_⟩
    rw [hrun, Nat.add_sub_cancel' hspan]
    exact congrArg some (if_pos (le_refl _))
  · refine .inr ⟨j, by omega, hgood, succ_inj.mp hcount, hmany, ?_⟩
    rw [hrun]
    exact congrArg some (if_neg (by omega))

end

/-! ### Aligned layouts -/

/-- The partitions are in order and consist of blocks. -/
structure Chip.Aligned (c : Chip) : Prop where
  le12 : c.par1Ofs ≤ c.par2Ofs
  le23 : c.par2Ofs ≤ c.par3Ofs
  le34 : c.par3Ofs ≤ c.par4Ofs
  dvd1 : c.pagecnt ∣ c.par1Ofs
  dvd2 : c.pagecnt ∣ c.par2Ofs
  dvd3 : c.pagecnt ∣ c.par3Ofs
  dvd4 : c.pagecnt ∣ c.par4Ofs

lemma Chip.Aligned.dvd (h : c.Aligned) (page : Nat) :
    c.pagecnt ∣ (c.basePages page).1 ∧ c.pagecnt ∣ (c.basePages page).2 := by
  rcases basePages_cases c page with ⟨-, heq⟩ | ⟨-, -, heq⟩ | ⟨-, -, -, heq⟩ | ⟨-, -, -, heq⟩
  all_goals rw [heq]
  · exact ⟨dvd_zero _, h.dvd1⟩
  · exact ⟨h.dvd1, h.dvd2⟩
  · exact ⟨h.dvd2, h.dvd3⟩
  · exact ⟨h.dvd3, h.dvd4⟩

lemma basePages_eq (h12 : c.par1Ofs ≤ c.par2Ofs) (h23 : c.par2Ofs ≤ c.par3Ofs)
    (hlo : (c.basePages page).1 ≤ q) (hhi : q < (c.basePages page).2) :
    c.basePages q = c.basePages page := by
  rcases basePages_cases c page with ⟨-, heq⟩ | ⟨-, -, heq⟩ | ⟨-, -, -, heq⟩ | ⟨-, -, -, heq⟩
  all_goals
    rw [heq] at hlo hhi ⊢
    unfold Chip.basePages
  · rw [if_pos hhi]
  · rw [if_neg (by omega), if_pos hhi]
  · rw [if_neg (by omega), if_neg (by omega), if_pos hhi]
  · rw [if_neg (by omega), if_neg (by omega), if_neg (by omega)]

section
variable {c : Chip} (ha : c.Aligned) {page : Nat}
include ha

lemma Chip.Aligned.shared_eq : c.shared page = 0 := if_pos (ha.dvd page).1

lemma Chip.Aligned.mem_partition {i e : Nat} (hlo : c.baseBlk page ≤ i)
    (hhi : i < c.baseBlkEnd page) (he : e < c.pagecnt) :
    (c.basePages page).1 ≤ i * c.pagecnt + e ∧ i * c.pagecnt + e < (c.basePages page).2 := by
  obtain ⟨hd1, hd2⟩ := ha.dvd page
  have h1 := Nat.mul_le_mul_right c.pagecnt hlo
  have h2 := Nat.mul_le_mul_right c.pagecnt (succ_le_of_lt hhi)
  rw [Chip.baseBlk, Nat.div_mul_cancel hd1] at h1
  rw [Chip.baseBlkEnd, Nat.div_mul_cancel hd2, succ_mul] at h2
  omega

end

lemma eslcPage_div (hpos : 0 < c.pagecnt) (i page : Nat) (hhalf : 0 < c.pagecnt / 2) :
    (i * c.pagecnt + eslcEntry (page % (c.pagecnt / 2))) / c.pagecnt = i ∧
      (i * c.pagecnt + eslcEntry (page % (c.pagecnt / 2))) % c.pagecnt =
        eslcEntry (page % (c.pagecnt / 2)) := by
  have he : eslcEntry (page % (c.pagecnt / 2)) < c.pagecnt := eslcEntry_lt (mod_lt _ hhalf)
  rw [mul_comm]
  exact ⟨by rw [mul_add_div hpos, div_eq_of_lt he, add_zero],
    by rw [mul_add_mod, mod_eq_of_lt he]⟩

lemma mod_eq_half (hs : c.pagecnt = 2 ^ s) (h1 : 1 ≤ s) (page : Nat) :
    page % c.pagecnt = c.half page * (c.pagecnt / 2) + page % (c.pagecnt / 2) := by
  have htwo : c.pagecnt = 2 * (c.pagecnt / 2) := by
    rw [hs, ← Nat.sub_add_cancel h1]
    omega
  have hpos : 0 < c.pagecnt := by rw [hs]; exact Nat.two_pow_pos s
  have hlt := mod_lt page hpos
  have hmod : page % c.pagecnt % (c.pagecnt / 2) = page % (c.pagecnt / 2) :=
    mod_mod_of_dvd page ⟨2, by omega⟩
  rw [← hmod]
  unfold Chip.half
  generalize page % c.pagecnt = m at *
  split
  · rw [mod_eq_sub_mod (by assumption), mod_eq_of_lt (by omega)]
    omega
  · rw [zero_mul, zero_add, mod_eq_of_lt (by omega)]

lemma writePage_target (hc : c.Hynix) (hpar : page < c.par4Ofs) :
    (wmtNandWritePage c page).map WritePage.target = eslcPartPage c page := by
  have hwhole : ¬ c.Whole := fun h => hc.2.2 h.2.2
  simp only [wmtNandWritePage, if_neg hwhole, if_pos hc, if_pos hpar]
  cases eslcPartPage c page with
  | none => rfl
  | some t =>
    cases t with
    | skip => rfl
    | page q =>
      split <;> rfl

/-! ### One to one -/

section
variable {c : Chip} {s : Nat} (hs : c.pagecnt = 2 ^ s) (h1 : 1 ≤ s) (h8 : s ≤ 8) (ha : c.Aligned)
include hs h1 h8 ha

lemma eslcPartPage_aligned (hpage : page < 2 ^ 31) (hpar : page < c.par4Ofs) :
    (c.total page ≤ 2 * c.rank page + c.half page ∧ eslcPartPage c page = some .skip) ∨
    ∃ q, 2 * c.rank page + c.half page < c.total page ∧ eslcPartPage c page = some (.page q) ∧
      c.Good (q / c.pagecnt) ∧ (c.basePages page).1 ≤ q ∧ q < (c.basePages page).2 ∧
      c.goodBlks page (q / c.pagecnt - c.baseBlk page) = 2 * c.rank page + c.half page ∧
      q % c.pagecnt = eslcEntry (page % (c.pagecnt / 2)) := by
  have hcases := eslcPartPage_cases hs h1 h8 hpage hpar (by rw [ha.shared_eq]; exact Nat.zero_le _)
  rw [ha.shared_eq] at hcases
  rcases hcases with hskip | ⟨j, hj, hgood, hcount, hlt, hrun⟩
  · exact .inl hskip
  have hpos : 0 < c.pagecnt := by rw [hs]; exact Nat.two_pow_pos s
  have hhalf : 0 < c.pagecnt / 2 := by
    have : 2 ^ 1 ≤ 2 ^ s := Nat.pow_le_pow_right (by decide) h1
    omega
  obtain ⟨hdiv, hmod⟩ := eslcPage_div hpos (c.baseBlk page + j) page hhalf
  have hin := @Chip.Aligned.mem_partition c ha page _ _ (Nat.le_add_right _ _) hj
    (eslcEntry_lt (mod_lt page hhalf))
  refine .inr ⟨_, hlt, hrun, ?_, hin.1, hin.2, ?_, hmod⟩
  · rw [hdiv]
    exact hgood
  · rw [hdiv, Nat.add_sub_cancel_left]
    exact hcount

lemma eslcPartPage_inj {page' : Nat} (hpage : page < 2 ^ 31) (hpage' : page' < 2 ^ 31)
    (hpar : page < c.par4Ofs) (hpar' : page' < c.par4Ofs) (hgood : c.Good (page / c.pagecnt))
    (hgood' : c.Good (page' / c.pagecnt)) (hq : eslcPartPage c page = some (.page q))
    (hq' : eslcPartPage c page' = some (.page q)) : page = page' := by
  have hcases := eslcPartPage_aligned hs h1 h8 ha hpage hpar
  have hcases' := eslcPartPage_aligned hs h1 h8 ha hpage' hpar'
  rw [hq] at hcases
  rw [hq'] at hcases'
  rcases hcases with ⟨-, hskip⟩ | ⟨_, -, hsame, -, hlo, hhi, hcount, hmod⟩
  · cases hskip
  rcases hcases' with ⟨-, hskip⟩ | ⟨_, -, hsame', -, hlo', hhi', hcount', hmod'⟩
  · cases hskip
  cases hsame
  cases hsame'
  -- The two pages are in the partition of `q`.
  have hpart : c.basePages page = c.basePages page' :=
    (basePages_eq ha.le12 ha.le23 hlo hhi).symm.trans (basePages_eq ha.le12 ha.le23 hlo' hhi')
  obtain ⟨hbase, -, -, hfun⟩ := ranks_congr hpart
  -- The rank of its block gives the rank of theirs, and the half.
  have hle := half_le c page
  have hle' := half_le c page'
  rw [hbase, hfun] at hcount
  have hhalf : c.half page = c.half page' := by omega
  have hrank : c.rank page = c.rank page' := by omega
  have hblk : page / c.pagecnt = page' / c.pagecnt := by
    have hfrom' : c.baseBlk page ≤ page' / c.pagecnt := hbase ▸ baseBlk_le hpar'
    have hcountEq : c.goodBlks page (page / c.pagecnt - c.baseBlk page)
        = c.goodBlks page (page' / c.pagecnt - c.baseBlk page) := by
      rw [Chip.rank, Chip.rank, ← hfun, ← hbase] at hrank
      exact hrank
    exact eq_of_goodBlks_eq (baseBlk_le hpar) hfrom' hgood hgood' hcountEq
  have hplace : page % (c.pagecnt / 2) = page' % (c.pagecnt / 2) :=
    eslcEntry_inj (hmod.symm.trans hmod')
  rw [← div_add_mod page c.pagecnt, ← div_add_mod page' c.pagecnt, hblk,
    mod_eq_half hs h1 page, mod_eq_half hs h1 page', hhalf, hplace]

end

/-- `wmt_nand_write_page` puts a page below `par4_ofs` that lies in a good block into a good block
of the same partition, or skips it. It skips the pages in the half `h` of a block of rank `r` whose
partition has at most `2
* r + h` good blocks, and no others. Two pages never go to one page. -/
theorem writePage_eslc {c : Chip} (hc : c.Hynix) {s : Nat} (hs : c.pagecnt = 2 ^ s) (h1 : 1 ≤ s)
    (h8 : s ≤ 8) (ha : c.Aligned) :
    (∀ page, page < c.par4Ofs → page < 2 ^ 31 → c.Good (page / c.pagecnt) →
      ∃ w, wmtNandWritePage c page = some w ∧
        (w.target = .skip ↔ c.total page ≤ 2 * c.rank page + c.half page) ∧
        (w.target = .skip ∨ ∃ q, w.target = .page q ∧ c.Good (q / c.pagecnt) ∧
          (c.basePages page).1 ≤ q ∧ q < (c.basePages page).2)) ∧
    ∀ page page', page < c.par4Ofs → page < 2 ^ 31 → c.Good (page / c.pagecnt) →
      page' < c.par4Ofs → page' < 2 ^ 31 → c.Good (page' / c.pagecnt) → page ≠ page' →
      ∀ w w' q q', wmtNandWritePage c page = some w → wmtNandWritePage c page' = some w' →
        w.target = .page q → w'.target = .page q' → q ≠ q' := by
  constructor
  · intro page hpar hpage hgood
    have htarget := writePage_target hc hpar
    rcases eslcPartPage_aligned hs h1 h8 ha hpage hpar with
      ⟨hfew, hrun⟩ | ⟨q, hmany, hrun, hq, hlo, hhi, -, -⟩
    · rw [hrun] at htarget
      obtain ⟨w, hw, ht⟩ := map_eq_some_iff.mp htarget
      exact ⟨w, hw, iff_of_true ht hfew, .inl ht⟩
    · rw [hrun] at htarget
      obtain ⟨w, hw, ht⟩ := map_eq_some_iff.mp htarget
      refine ⟨w, hw, iff_of_false (by simp [ht]) (Nat.not_le_of_lt hmany), .inr ?_⟩
      exact ⟨q, ht, hq, hlo, hhi⟩
  intro page page' hpar hpage hgood hpar' hpage' hgood' hne w w' q q' hw hw' ht ht' heq
  have htarget := writePage_target hc hpar
  have htarget' := writePage_target hc hpar'
  rw [hw, map_some, ht] at htarget
  rw [hw', map_some, ht', ← heq] at htarget'
  exact hne (eslcPartPage_inj hs h1 h8 ha hpage hpage' hpar hpar' hgood hgood' htarget.symm
    htarget'.symm)

/-- A chip with 256 pages in a block and a first partition of four blocks, the first one bad. -/
def fourBlocks : Chip :=
  { id := 0xADDE94DA, curChip := true, physEraseShift := 21, pageShift := 13, blkcnt := 4096
    bbt := some fun k => if k = 0 then 1 else 0
    par1Ofs := 1024, par2Ofs := 1024, par3Ofs := 1024, par4Ofs := 1024
    wholeEslc := 0, probEnd := 1, eslcWrite := 0 }

/-- The second half of the first good block goes to the second good block. -/
theorem fourBlocks_second_half :
    (wmtNandWritePage fourBlocks 384).map WritePage.target = some (.page 512) ∧
    ∃ w, wmtNandWritePage fourBlocks 384 = some w ∧
      (w.target = .skip ↔ fourBlocks.total 384 ≤ 2 * fourBlocks.rank 384 + fourBlocks.half
        384) := by
  refine ⟨by decide +kernel, ?_⟩
  have ha : fourBlocks.Aligned :=
    ⟨by decide, by decide, by decide, by decide +kernel, by decide +kernel, by decide +kernel,
      by decide +kernel⟩
  have hall := (writePage_eslc (c := fourBlocks) (s := 8) (by decide +kernel) (by decide +kernel)
    (by decide) (by decide) ha).1 384 (by decide) (by decide) (by decide +kernel)
  obtain ⟨w, hw, hskip, -⟩ := hall
  exact ⟨w, hw, hskip⟩

def oneBlock : Chip :=
  { fourBlocks with
    bbt := some fun _ => 0, par1Ofs := 256, par2Ofs := 256, par3Ofs := 256, par4Ofs := 256 }

/-- The first half of the block stays, the second half is skipped. With one page in a block the
code divides by zero. -/
theorem oneBlock_half_skipped :
    oneBlock.Hynix ∧ oneBlock.pagecnt = 256 ∧ oneBlock.Good 0 ∧ oneBlock.total 0 = 1 ∧
    (wmtNandWritePage oneBlock 0).map WritePage.target = some (.page 0) ∧
    (wmtNandWritePage oneBlock 128).map WritePage.target = some .skip ∧
    wmtNandWritePage { oneBlock with physEraseShift := 13 } 0 = none := by
  decide +kernel

end Wm8850.Nand
