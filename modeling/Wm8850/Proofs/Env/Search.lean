import Wm8850.Proofs.Env.Rotation

/-! # The search of `env_init`

With NAND boot, `env_init` goes through nine erase blocks, and through the same blocks once more if
the first round finds nothing. As long as a bad ninth block is not reached, `offs` stays at block
`blk_cnt % 9`. -/

namespace Wm8850.Env

open Nat List

variable {b : Board} {mtd : Mtd} {s s' : State b} {blkCnt offs offs' j : Nat}

/-- What the search is for, from a visit on. -/
structure SearchRight (mtd : Mtd) (s : State b) (blkCnt offs : Nat) : Prop where
  window : ∀ o, (o, true) ∈ visits mtd s blkCnt offs →
    ∃ j, j < nandEnvBlkLength ∧ mtd.Good j ∧ o = j * mtd.erasesize
  twice : (visits mtd s blkCnt offs).length + blkCnt ≤ nandEnvBlkLength * 2
  finds : ∀ j e, j < nandEnvBlkLength → blkCnt ≤ nandEnvBlkLength + j → mtd.Good j →
    mtd.cell s.flash j = some e → e.CrcOk b → (nextBlk mtd s blkCnt offs).2 = 0
  loads : ∀ t, nextBlk mtd s blkCnt offs = (t, 0) →
    mtd.cell s.flash t.nandBlock = some t.env.image ∧
      (visits mtd s blkCnt offs).getLast? = some (t.nandBlock * mtd.erasesize, true)

/-- A copy that is taken in the first round: it has a correct checksum other than 0xFFFFFFFF. -/
def Accepted (mtd : Mtd) (flash : Flash b) (j : Nat) : Prop :=
  mtd.Good j ∧ ∃ e, mtd.cell flash j = some e ∧ e.crc ≠ 0xFFFFFFFF ∧ e.CrcOk b

/-- A good block that cannot be read. -/
def Unreadable (mtd : Mtd) (flash : Flash b) (j : Nat) : Prop :=
  mtd.Good j ∧ mtd.cell flash j = none

/-- A good block with a correct environment. -/
def Holding (mtd : Mtd) (flash : Flash b) (j : Nat) : Prop :=
  mtd.Good j ∧ ∃ e, mtd.cell flash j = some e ∧ e.CrcOk b

/-- What is left of the first round from block `j` on: a bad ninth block is not reached, and if
there is a copy to be found, no block that cannot be read is reached. -/
structure FitsFrom (mtd : Mtd) (flash : Flash b) (j : Nat) : Prop where
  ninth : mtd.Good 8 ∨ ∃ i, j ≤ i ∧ i < 8 ∧ (Unreadable mtd flash i ∨ Accepted mtd flash i)
  readable : (∃ i < 9, Holding mtd flash i) →
    ∀ k, j ≤ k → k < 9 → Unreadable mtd flash k → ∃ i, j ≤ i ∧ i < k ∧ Accepted mtd flash i

/-- Every good block of the nine can be read. -/
def Readable (mtd : Mtd) (flash : Flash b) : Prop :=
  ∀ j, j < nandEnvBlkLength → mtd.Good j → ∃ e, mtd.cell flash j = some e

lemma SearchRight.next {read : Bool} (h : SearchRight mtd s' (blkCnt + 1) offs')
    (hvisits : visits mtd s blkCnt offs = (offs, read) :: visits mtd s' (blkCnt + 1) offs')
    (hnext : nextBlk mtd s blkCnt offs = nextBlk mtd s' (blkCnt + 1) offs')
    (hflash : s'.flash = s.flash) (hoffs : offs = blkCnt % nandEnvBlkLength * mtd.erasesize)
    (hread : read = true → mtd.Good (blkCnt % nandEnvBlkLength))
    (hpass : ∀ e, nandEnvBlkLength ≤ blkCnt → mtd.Good (blkCnt % nandEnvBlkLength) →
      mtd.cell s.flash (blkCnt % nandEnvBlkLength) = some e → ¬e.CrcOk b) :
        SearchRight mtd s blkCnt offs where
  window := by
    intro o ho
    rw [hvisits, mem_cons] at ho
    rcases ho with heq | ho
    · cases heq
      exact ⟨_, mod_lt _ (by decide), hread rfl, hoffs⟩
    · exact h.window o ho
  twice := by
    have := h.twice
    rw [hvisits, length_cons]
    omega
  finds := by
    intro j e hj hle hgood hcell hok
    rw [hnext]
    by_cases heq : blkCnt = nandEnvBlkLength + j
    · rw [← mod_eq_of_lt hj, ← add_mod_left, ← heq] at hgood hcell
      exact absurd hok (hpass e (by omega) hgood hcell)
    · exact h.finds j e hj (by omega) hgood (hflash ▸ hcell) hok
  loads := by
    intro t ht
    obtain ⟨hcell, hlast⟩ := h.loads t (hnext ▸ ht)
    rw [hvisits, List.getLast?_cons, hlast]
    exact ⟨hflash ▸ hcell, rfl⟩

lemma block_succ (h : blkCnt % nandEnvBlkLength ≠ 8) :
    blkCnt % nandEnvBlkLength * mtd.erasesize + mtd.erasesize
      = (blkCnt + 1) % nandEnvBlkLength * mtd.erasesize := by
  simp only [nandEnvBlkLength] at *
  rw [← succ_mul, show (blkCnt + 1) % 9 = (blkCnt % 9).succ by omega]

lemma nextOffs_block (h : blkCnt + 1 < nandEnvBlkLength * 2) :
    nextOffs mtd (blkCnt + 1) (blkCnt % nandEnvBlkLength * mtd.erasesize)
      = (blkCnt + 1) % nandEnvBlkLength * mtd.erasesize := by
  unfold nextOffs
  split
  case isTrue hnine => rw [hnine, mod_self, zero_mul]
  case isFalse hnine => exact block_succ (by simp only [nandEnvBlkLength] at *; omega)

lemma readNand_none (hun : Unreadable mtd s.flash j) :
    s.readNand mtd (j * mtd.erasesize) = none := by
  rw [State.readNand, if_neg (not_le.mpr hun.1.lt_size), State.read]
  exact congrArg _ hun.2

/-- At a block that cannot be read the search ends. -/
lemma stops_of_unreadable (hcnt : blkCnt < nandEnvBlkLength * 2)
    (hoffs : offs = blkCnt % nandEnvBlkLength * mtd.erasesize)
    (hun : Unreadable mtd s.flash (blkCnt % nandEnvBlkLength)) :
    visits mtd s blkCnt offs = [(offs, true)] ∧ nextBlk mtd s blkCnt offs = (s, 1) := by
  have hnot : ¬(offs < nandEnvBlkLength * mtd.erasesize ∧ mtd.blockIsbad offs = true) := by
    rintro ⟨-, hbad⟩
    rw [hoffs, hun.1] at hbad
    cases hbad
  have hread : s.readNand mtd offs = none := hoffs ▸ readNand_none hun
  rw [visits, nextBlk, if_neg hnot, if_neg (by omega), if_neg hnot, if_neg (by omega), hread]
  exact ⟨rfl, rfl⟩

section
variable {e : b.Copy} (hcnt : blkCnt < nandEnvBlkLength * 2)
  (hoffs : offs = blkCnt % nandEnvBlkLength * mtd.erasesize)
include hcnt hoffs

/-- A good block is read. The search ends with it, or goes on with the next block. -/
lemma SearchRight.of_read (hgood : mtd.Good (blkCnt % nandEnvBlkLength))
    (he : mtd.cell s.flash (blkCnt % nandEnvBlkLength) = some e)
    (hgo : e.crc = 0xFFFFFFFF ∧ blkCnt < nandEnvBlkLength ∨ ¬e.CrcOk b →
      blkCnt + 1 < nandEnvBlkLength * 2 →
      SearchRight mtd (s.withRead e) (blkCnt + 1) (nextOffs mtd (blkCnt + 1) offs)) :
    SearchRight mtd s blkCnt offs := by
  have hlt : blkCnt % nandEnvBlkLength < nandEnvBlkLength := mod_lt _ (by decide)
  have hnot : ¬(offs < nandEnvBlkLength * mtd.erasesize ∧ mtd.blockIsbad offs = true) := by
    rintro ⟨-, hbad⟩
    rw [hoffs, hgood] at hbad
    cases hbad
  have hs := readNand_eq hgood he
  rw [← hoffs] at hs
  have hvisits := visits.eq_1 mtd s blkCnt offs
  have hnext := nextBlk.eq_1 mtd s blkCnt offs
  rw [if_neg hnot, if_neg (by omega), hs] at hvisits hnext
  simp only [crcOk_withRead] at hvisits hnext
  have hlast (hone : visits mtd s blkCnt offs = [(offs, true)]) o
      (ho : (o, true) ∈ visits mtd s blkCnt offs) :
      ∃ j, j < nandEnvBlkLength ∧ mtd.Good j ∧ o = j * mtd.erasesize := by
    rw [hone, mem_singleton] at ho
    cases ho
    exact ⟨_, hlt, hgood, hoffs⟩
  by_cases herased : e.crc = 0xFFFFFFFF ∧ blkCnt < nandEnvBlkLength
  · have hcrc : (s.withRead e).env.crc = 0xFFFFFFFF ∧ blkCnt < nandEnvBlkLength := herased
    rw [if_pos hcrc] at hvisits hnext
    exact (hgo (.inl herased) (by omega)).next hvisits hnext rfl hoffs (fun _ => hgood) (by omega)
  have hcrc : ¬((s.withRead e).env.crc = 0xFFFFFFFF ∧ blkCnt < nandEnvBlkLength) := herased
  rw [if_neg hcrc] at hvisits hnext
  have hsame : ∀ e', mtd.cell s.flash (blkCnt % nandEnvBlkLength) = some e' → e' = e := by
    intro e' he'
    exact Option.some.inj (he'.symm.trans he)
  by_cases hok : e.CrcOk b
  · rw [if_pos hok] at hvisits hnext
    refine ⟨hlast hvisits, ?_, ?_, ?_⟩
    · rw [hvisits, length_singleton]
      omega
    · intros
      rw [hnext]
    · intro t ht
      rw [hnext] at ht
      cases ht
      rw [hvisits, hoffs]
      exact ⟨he.trans (congrArg some (e.image_readInto s.env).symm), rfl⟩
  rw [if_neg hok] at hvisits hnext
  by_cases hagain : blkCnt + 1 < nandEnvBlkLength * 2
  · rw [if_pos hagain] at hvisits hnext
    refine (hgo (.inr hok) hagain).next hvisits hnext rfl hoffs (fun _ => hgood) ?_
    rintro e' - - he'
    rwa [hsame e' he']
  rw [if_neg hagain] at hvisits hnext
  refine ⟨hlast hvisits, ?_, ?_, ?_⟩
  · rw [hvisits, length_singleton]
    omega
  · intro j e' hj hle _ hcell hok'
    have hj8 : blkCnt % nandEnvBlkLength = j := by
      simp only [nandEnvBlkLength] at *
      omega
    rw [hsame e' (hj8 ▸ hcell)] at hok'
    exact absurd hok' hok
  · intro t ht
    rw [hnext] at ht
    cases ht

/-- A bad block that is not the ninth one is passed over. -/
lemma SearchRight.of_bad (hbad : ¬mtd.Good (blkCnt % nandEnvBlkLength))
    (h8 : blkCnt % nandEnvBlkLength ≠ 8)
    (hgo : blkCnt + 1 < nandEnvBlkLength * 2 →
      SearchRight mtd s (blkCnt + 1) (offs + mtd.erasesize)) : SearchRight mtd s blkCnt offs := by
  have hlt : blkCnt % nandEnvBlkLength < nandEnvBlkLength := mod_lt _ (by decide)
  have hisbad : offs < nandEnvBlkLength * mtd.erasesize ∧ mtd.blockIsbad offs = true := by
    rw [hoffs]
    exact ⟨offs_lt_window hlt, by simpa [Mtd.Good] using hbad⟩
  have hnine : blkCnt + 1 ≠ nandEnvBlkLength ∧ blkCnt + 1 < nandEnvBlkLength * 2 := by
    simp only [nandEnvBlkLength] at *
    omega
  have hvisits := visits.eq_1 mtd s blkCnt offs
  have hnext := nextBlk.eq_1 mtd s blkCnt offs
  rw [if_pos hisbad, if_neg hnine.1] at hvisits hnext
  refine (hgo hnine.2).next hvisits hnext rfl hoffs (by simp) ?_
  intro e _ hg
  exact absurd hg hbad

/-- The search fails at a block that cannot be read, which is right if there is nothing to find. -/
lemma SearchRight.of_unreadable (hun : Unreadable mtd s.flash (blkCnt % nandEnvBlkLength))
    (hnone : ¬∃ i < 9, Holding mtd s.flash i) : SearchRight mtd s blkCnt offs := by
  obtain ⟨hvisits, hnext⟩ := stops_of_unreadable hcnt hoffs hun
  refine ⟨fun o ho => ?_, ?_, fun j e hj _ hgood hcell hok => ?_, fun t ht => ?_⟩
  · rw [hvisits, mem_singleton] at ho
    cases ho
    exact ⟨_, mod_lt _ (by decide), hun.1, hoffs⟩
  · rw [hvisits, length_singleton]
    omega
  · exact absurd ⟨j, hj, hgood, e, hcell, hok⟩ hnone
  · rw [hnext] at ht
    cases ht

end

/-- Once the first round is over, the second one is right. -/
lemma searchRight (h8 : mtd.Good 8) (hread : Readable mtd s.flash)
    (hcnt : blkCnt < nandEnvBlkLength * 2)
    (hoffs : offs = blkCnt % nandEnvBlkLength * mtd.erasesize) : SearchRight mtd s blkCnt offs := by
  induction hm : nandEnvBlkLength * 2 - blkCnt generalizing s blkCnt offs with
  | zero => omega
  | succ m ih =>
    by_cases hgood : mtd.Good (blkCnt % nandEnvBlkLength)
    · obtain ⟨e, he⟩ := hread _ (mod_lt _ (by decide)) hgood
      exact .of_read hcnt hoffs hgood he fun _ h =>
        ih (s := s.withRead e) hread h (hoffs ▸ nextOffs_block h) (by omega)
    · have h8' : blkCnt % nandEnvBlkLength ≠ 8 := fun heq => hgood (heq ▸ h8)
      exact .of_bad hcnt hoffs hgood h8' fun h => ih hread h (hoffs ▸ block_succ h8') (by omega)

lemma FitsFrom.succ (h : FitsFrom mtd s.flash j)
    (hpass : ¬(Unreadable mtd s.flash j ∨ Accepted mtd s.flash j)) :
    FitsFrom mtd s.flash (j + 1) where
  ninth := h.ninth.imp id fun ⟨i, hle, hlt, hstop⟩ =>
    ⟨i, lt_of_le_of_ne hle fun heq => hpass (heq ▸ hstop), hlt, hstop⟩
  readable hfound k hk hk9 hun := by
    obtain ⟨i, hle, hlt, hacc⟩ := h.readable hfound k (by omega) hk9 hun
    exact ⟨i, lt_of_le_of_ne hle fun heq => hpass (.inr (heq ▸ hacc)), hlt, hacc⟩

/-- The first round from block `j` on, after blocks that could be read. -/
lemma searchRight_first (hj : j ≤ 9) (hfits : FitsFrom mtd s.flash j)
    (hbefore : ∀ i < j, mtd.Good i → ∃ e, mtd.cell s.flash i = some e) :
    SearchRight mtd s j (j % nandEnvBlkLength * mtd.erasesize) := by
  induction hm : 9 - j generalizing s j with
  | zero =>
    obtain rfl : j = 9 := by omega
    have h8 : mtd.Good 8 := hfits.ninth.resolve_right fun ⟨i, hle, hlt, _⟩ => by omega
    exact searchRight h8 hbefore (by decide) rfl
  | succ m ih =>
    have hmod : j % nandEnvBlkLength = j := mod_eq_of_lt (show j < 9 by omega)
    have hcnt : j < nandEnvBlkLength * 2 := show j < 18 by omega
    have hstep : ¬(Unreadable mtd s.flash j ∨ Accepted mtd s.flash j) →
        (mtd.Good j → ∃ e, mtd.cell s.flash j = some e) → ∀ s' : State b, s'.flash = s.flash →
        SearchRight mtd s' (j + 1) ((j + 1) % nandEnvBlkLength * mtd.erasesize) := by
      intro hpass hread s' hs'
      refine ih (by omega) (hs' ▸ hfits.succ hpass) (fun i hi hgood => ?_) (by omega)
      rw [hs']
      obtain hlt | rfl := Nat.lt_succ_iff_lt_or_eq.mp hi
      · exact hbefore i hlt hgood
      · exact hread hgood
    by_cases hgood : mtd.Good j
    · cases hcell : mtd.cell s.flash j with
      | none =>
        refine .of_unreadable hcnt rfl (hmod.symm ▸ ⟨hgood, hcell⟩) fun hfound => ?_
        obtain ⟨i, hle, hlt, -⟩ := hfits.readable hfound j le_rfl (by omega) ⟨hgood, hcell⟩
        omega
      | some e =>
        refine .of_read hcnt rfl (hmod.symm ▸ hgood) (hmod.symm ▸ hcell) fun hpass hlt => ?_
        rw [nextOffs_block hlt]
        refine hstep ?_ (fun _ => ⟨e, hcell⟩) (s.withRead e) rfl
        rintro (hun | ⟨-, e', he', hne, hok⟩)
        · rw [hun.2] at hcell
          cases hcell
        · obtain rfl : e' = e := Option.some.inj (he'.symm.trans hcell)
          exact hpass.elim (fun h => hne h.1) fun h => h hok
    · have hne8 : j ≠ 8 := by
        rintro rfl
        exact hfits.ninth.elim hgood fun ⟨i, hle, hlt, _⟩ => by omega
      refine .of_bad hcnt rfl (hmod.symm ▸ hgood) (hmod.symm ▸ hne8) fun hlt => ?_
      rw [block_succ (hmod.symm ▸ hne8)]
      exact hstep (fun h => hgood (h.elim And.left And.left)) (fun h => absurd h hgood) s rfl

/-! ### What goes wrong otherwise -/

/-- The ninth block is bad and is reached: the search goes on to the block behind it, and reads
that. -/
lemma visits_tenth (h8 : ¬mtd.Good 8) (hj : j ≤ 8)
    (hpass : ∀ i, j ≤ i → i < 8 → ¬(Unreadable mtd s.flash i ∨ Accepted mtd s.flash i)) :
    (9 * mtd.erasesize, true) ∈ visits mtd s j (j * mtd.erasesize) := by
  have hbad : ∀ j, j ≤ 8 → ¬mtd.Good j → j * mtd.erasesize < nandEnvBlkLength * mtd.erasesize ∧
      mtd.blockIsbad (j * mtd.erasesize) = true := by
    intro j hj hg
    exact ⟨offs_lt_window (lt_succ_of_le hj), by simpa [Mtd.Good] using hg⟩
  induction hm : 8 - j generalizing s j with
  | zero =>
    obtain rfl : j = 8 := by omega
    rw [visits, if_pos (hbad 8 hj h8), if_pos (by decide), visits, if_pos (hbad 8 hj h8),
      if_neg (by decide), ← succ_mul, visits, if_neg fun h => absurd h.1 (lt_irrefl _),
      if_neg (by decide)]
    simp
  | succ m ih =>
    by_cases hg : mtd.Good j
    · have hround : ¬nandEnvBlkLength * 2 ≤ j ∧ j + 1 < nandEnvBlkLength * 2 := by
        simp only [nandEnvBlkLength]
        omega
      obtain ⟨e, he⟩ := Option.ne_none_iff_exists'.mp fun h => hpass j le_rfl (by omega)
        (.inl ⟨hg, h⟩)
      have hnot : e.crc = 0xFFFFFFFF ∨ ¬e.CrcOk b := by
        by_contra hboth
        rw [not_or, not_not] at hboth
        exact hpass j le_rfl (by omega) (.inr ⟨hg, e, he, hboth⟩)
      have hrest := ih (s := s.withRead e) (j := j + 1) (by omega)
        (fun i hi => hpass i (by omega)) (by omega)
      have hinside : j + 1 < nandEnvBlkLength := by
        simp only [nandEnvBlkLength]
        omega
      rw [succ_mul, ← nextOffs_eq _ hinside] at hrest
      rw [visits, if_neg fun h => absurd (hg.symm.trans h.2) (by decide),
        if_neg hround.1, readNand_eq hg he]
      refine mem_cons_of_mem _ ?_
      simp only [crcOk_withRead]
      split
      · exact hrest
      · rename_i herased
        have hcrc : ¬(e.crc = 0xFFFFFFFF ∧ j < nandEnvBlkLength) := herased
        have hfail : ¬e.CrcOk b := hnot.resolve_left fun h => hcrc ⟨h, lt_succ_of_le hj⟩
        rw [if_neg hfail, if_pos hround.2]
        exact hrest
    · rw [visits, if_pos (hbad j hj hg), if_neg (by simp only [nandEnvBlkLength]; omega),
        ← succ_mul]
      exact mem_cons_of_mem _ (ih (by omega) (fun i hi => hpass i (by omega)) (by omega))

/-- The search fails at a block that cannot be read if no copy before it is taken. -/
lemma nextBlk_fails {k : Nat} (hk : k < 9) (hjk : j ≤ k) (hun : Unreadable mtd s.flash k)
    (hnone : ∀ i, j ≤ i → i < k → ¬Accepted mtd s.flash i) :
    (nextBlk mtd s j (j * mtd.erasesize)).2 = 1 := by
  induction hm : k - j generalizing s j with
  | zero =>
    obtain rfl : j = k := by omega
    have hmod : j % nandEnvBlkLength = j := mod_eq_of_lt hk
    obtain ⟨-, hnext⟩ := stops_of_unreadable (s := s) (show j < 18 by omega)
      (show j * mtd.erasesize = j % nandEnvBlkLength * mtd.erasesize by rw [hmod]) (hmod.symm ▸ hun)
    rw [hnext]
  | succ m ih =>
    by_cases hg : mtd.Good j
    · cases hcell : mtd.cell s.flash j with
      | none =>
        have hmod : j % nandEnvBlkLength = j := mod_eq_of_lt (show j < 9 by omega)
        obtain ⟨-, hnext⟩ := stops_of_unreadable (s := s) (show j < 18 by omega)
          (show j * mtd.erasesize = j % nandEnvBlkLength * mtd.erasesize by rw [hmod])
          (hmod.symm ▸ ⟨hg, hcell⟩)
        rw [hnext]
      | some e =>
        have hnot : e.crc = 0xFFFFFFFF ∨ ¬e.CrcOk b := by
          by_contra hboth
          rw [not_or, not_not] at hboth
          exact hnone j le_rfl (by omega) ⟨hg, e, hcell, hboth⟩
        rw [nextBlk_good (show j < 9 by omega) hg hcell, if_pos hnot,
          nextOffs_eq _ (show j + 1 < 9 by omega), ← succ_mul]
        exact ih (s := s.withRead e) (by omega) hun (fun i hi => hnone i (by omega)) (by omega)
    · rw [nextBlk_bad (show j + 1 < 9 by omega) hg]
      exact ih (by omega) hun (fun i hi => hnone i (by omega)) (by omega)

/-- The search of `env_init` keeps to the good blocks of the nine, in at most eighteen visits, finds
a copy that is there and remembers its block, if and only if the first round does not reach a bad
ninth block, and does not reach a block that cannot be read while there is a copy to be found. -/
theorem searchRight_iff (mtd : Mtd) (s : State b) :
    SearchRight mtd s 0 0 ↔ FitsFrom mtd s.flash 0 := by
  constructor
  · intro h
    refine ⟨?_, fun hfound k _ hk hun => ?_⟩
    · by_contra hnot
      rw [not_or, not_exists] at hnot
      have htenth := visits_tenth (s := s) (j := 0) hnot.1 (by decide)
        fun i hle hlt hstop => hnot.2 i ⟨hle, hlt, hstop⟩
      rw [zero_mul] at htenth
      obtain ⟨j, hj, -, heq⟩ := h.window _ htenth
      have := eq_of_mul_eq_mul_right mtd.erasesize_pos heq
      simp only [nandEnvBlkLength] at hj
      omega
    · by_contra hnot
      obtain ⟨i, hi, hgood, e, hcell, hok⟩ := hfound
      have hfails := nextBlk_fails (s := s) (j := 0) hk (Nat.zero_le k) hun
        fun i hle hlt hacc => hnot ⟨i, hle, hlt, hacc⟩
      rw [zero_mul] at hfails
      rw [h.finds i e hi (Nat.zero_le _) hgood hcell hok] at hfails
      cases hfails
  · intro hfits
    have h := searchRight_first (Nat.zero_le 9) hfits fun i hi => absurd hi (Nat.not_lt_zero i)
    rwa [zero_mod, zero_mul] at h

def tenBlocks (isbad : Nat → Bool) : Mtd :=
  { nandMtd with size := 0xA0000, isbad := isbad, whole := by decide, addr32 := by decide }

def erasedState : State nandBoard :=
  { nandState with flash := fun _ _ => some (EnvT.erased nandBoard) }

/-- A copy in the fourth block. -/
def copiedState : State nandBoard :=
  { nandState with
    flash := fun _ offs =>
      some (if offs = 0x30000 then nandState.withCrc.env.image else EnvT.erased nandBoard) }

/-- The first of the blocks is bad, and the copy is found. -/
theorem searchRight_tenBlocks : SearchRight (tenBlocks (· == 0)) copiedState 0 0 ∧
    (nextBlk (tenBlocks (· == 0)) copiedState 0 0).2 = 0 := by
  have h : SearchRight (tenBlocks (· == 0)) copiedState 0 0 := by
    refine (searchRight_iff _ _).mpr ⟨.inl rfl, ?_⟩
    rintro - k - - ⟨-, hnone⟩
    cases hnone
  exact ⟨h, h.finds 3 _ (by decide) (by decide) rfl rfl
    ((EnvT.crcOk_image _).mpr (crcOk_withCrc _))⟩

/-- Only the ninth block is bad, and the tenth is read. -/
theorem visits_outside : (0x90000, true) ∈ visits (tenBlocks (· == 0x80000)) erasedState 0 0 := by
  have h8 : ¬(tenBlocks (· == 0x80000)).Good 8 := nofun
  refine visits_tenth (s := erasedState) (j := 0) h8 (by decide) ?_
  rintro i - - (⟨-, hnone⟩ | ⟨-, e, he, hne, -⟩)
  · cases hnone
  · obtain rfl : EnvT.erased nandBoard = e := Option.some.inj he
    exact hne rfl

end Wm8850.Env
