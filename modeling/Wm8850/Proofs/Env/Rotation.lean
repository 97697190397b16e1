import Wm8850.Proofs.Env.Update

/-! # Updates with NAND boot

`env_update` writes to the next good erase block and erases the one before. `env_init` loads the
first copy that it accepts among nine blocks. `State.Rotating`: as long as the next good block lies
above `nand_block`, every good block below `nand_block` is clean. -/

namespace Wm8850.Env

open Lib List

/-! ### The last byte matters to the checksum

So some data do not have the checksum `0xFFFFFFFF`, which `env_init` takes for an erased block. -/

lemma sfCrcTable_pair : ∀ i, i < 256 → sfCrcTable.getD i 0 ≠ sfCrcTable.getD (i ^^^ 1) 0 := by
  decide +kernel

lemma do1_zero_ne_one (crc : UInt32) : do1 crc 0 ≠ do1 crc 1 := by
  have hlt : ((crc ^^^ (0 : UInt8).toUInt32) &&& 0xff).toNat < 256 := by
    exact lt_of_le_of_lt Nat.and_le_right (by decide)
  have hindex : ((crc ^^^ (1 : UInt8).toUInt32) &&& 0xff).toNat
      = ((crc ^^^ (0 : UInt8).toUInt32) &&& 0xff).toNat ^^^ 1 := by
    simp only [UInt32.toNat_and, UInt32.toNat_xor, Nat.and_xor_distrib_right]
    simp
  unfold do1
  rw [hindex]
  intro heq
  exact sfCrcTable_pair _ hlt ((UInt32.xor_left_inj _).mp heq)

lemma crc32_concat_ne (buf : List UInt8) :
    crc32 (buf.length + 1) (buf ++ [0]) ≠ crc32 (buf.length + 1) (buf ++ [1]) := by
  have htake : ∀ c : UInt8, (buf ++ [c]).take (buf.length + 1) = buf ++ [c] := by
    simp
  unfold crc32
  rw [htake, htake, List.foldl_append, List.foldl_append]
  intro heq
  exact do1_zero_ne_one _ ((UInt32.xor_left_inj _).mp heq)

variable {j offs k r blkCnt : Nat}

variable {b : Board} {mtd : Mtd} {s s' t u : State b} {e : b.Copy} {flash : Flash b}

/-! ### The next good block -/

lemma Mtd.Good.lt_size (h : mtd.Good j) : j * mtd.erasesize < mtd.size := by
  unfold Mtd.Good Mtd.blockIsbad at h
  simp only [Bool.or_eq_false_iff, decide_eq_false_iff_not] at h
  omega

def Mtd.blocks (mtd : Mtd) : Nat := mtd.size / mtd.erasesize

lemma Mtd.erasesize_pos (mtd : Mtd) : 0 < mtd.erasesize := by
  have := mtd.room
  omega

lemma Mtd.size_eq (mtd : Mtd) : mtd.size = mtd.blocks * mtd.erasesize :=
  (Nat.div_mul_cancel mtd.whole).symm

lemma Mtd.lt_size_iff (mtd : Mtd) (j : Nat) : j * mtd.erasesize < mtd.size ↔ j < mtd.blocks := by
  rw [mtd.size_eq, Nat.mul_lt_mul_right mtd.erasesize_pos]

lemma Mtd.Good.lt_blocks (h : mtd.Good j) : j < mtd.blocks := (mtd.lt_size_iff j).mp h.lt_size

lemma Mtd.wrap_eq {o : Nat} (h : o < mtd.blocks) :
    mtd.wrap ((o + 1) * mtd.erasesize) = (o + 1) % mtd.blocks * mtd.erasesize := by
  unfold Mtd.wrap
  by_cases hlast : o + 1 < mtd.blocks
  · rw [if_neg (not_le.mpr ((mtd.lt_size_iff _).mpr hlast)), Nat.mod_eq_of_lt hlast]
  · have heq : o + 1 = mtd.blocks := by omega
    rw [if_pos (heq ▸ le_of_eq mtd.size_eq), heq, Nat.mod_self, zero_mul]

lemma goodBlock_scan {o c : Nat} (ho : o < mtd.blocks)
    (h : goodBlock mtd (o * mtd.erasesize) (c * mtd.erasesize) = some offs) :
    ∃ d, offs = (o + d) % mtd.blocks * mtd.erasesize ∧ c + d + 1 < mtd.blocks ∧
      mtd.Good ((o + d) % mtd.blocks) ∧ ∀ i, i < d → ¬mtd.Good ((o + i) % mtd.blocks) := by
  induction hm : mtd.blocks - c generalizing o c with
  | zero =>
    rw [goodBlock, if_neg fun hlt => by have := (mtd.lt_size_iff c).mp hlt; omega] at h
    cases h
  | succ m ih =>
    rw [goodBlock, if_pos ((mtd.lt_size_iff c).mpr (by omega)), ← Nat.succ_mul,
      ← Nat.succ_mul, mtd.wrap_eq ho] at h
    by_cases hbad : mtd.blockIsbad (o * mtd.erasesize) = true
    · -- One more bad block.
      rw [if_pos hbad] at h
      obtain ⟨d, hoffs, hd, hgood, hall⟩ := ih (Nat.mod_lt _ (by omega)) h (by omega)
      have hmod : ∀ i, ((o + 1) % mtd.blocks + i) % mtd.blocks = (o + (i + 1)) % mtd.blocks := by
        intro i
        rw [Nat.mod_add_mod, add_assoc, add_comm 1 i]
      rw [hmod] at hoffs hgood
      refine ⟨d + 1, hoffs, by omega, hgood, ?_⟩
      intro i hi
      cases i with
      | zero =>
        rw [add_zero, Nat.mod_eq_of_lt ho, Mtd.Good, hbad]
        simp
      | succ i =>
        rw [← hmod]
        exact hall i (by omega)
    rw [if_neg hbad] at h
    have hgood : mtd.Good ((o + 0) % mtd.blocks) := by
      rw [add_zero, Nat.mod_eq_of_lt ho]
      exact Bool.eq_false_iff.mpr hbad
    by_cases hlast : mtd.size ≤ (c + 1) * mtd.erasesize
    · rw [if_pos hlast] at h
      cases h
    rw [if_neg hlast] at h
    cases h
    have hc := (mtd.lt_size_iff (c + 1)).mp (not_le.mp hlast)
    refine ⟨0, ?_, hc, hgood, by omega⟩
    rw [add_zero, Nat.mod_eq_of_lt ho]

lemma newBlock_nextGood (h : newBlock mtd k = some offs) :
    ∃ r, offs = r * mtd.erasesize ∧ NextGood mtd.Good k r := by
  have hblocks : ∀ j, mtd.Good j → j < mtd.blocks := fun j hj => hj.lt_blocks
  have hzero : 0 = 0 * mtd.erasesize := (zero_mul _).symm
  unfold newBlock at h
  rw [hzero] at h
  by_cases hk : k < mtd.blocks
  · rw [Mtd.wrap_eq hk] at h
    obtain ⟨d, hoffs, hd, hgood, hall⟩ := goodBlock_scan (Nat.mod_lt _ (by omega)) h
    simp only [Nat.mod_add_mod] at hoffs hgood hall
    exact ⟨_, hoffs, nextGood_of_scan hblocks hk (by omega) hgood hall⟩
  -- `nand_block` lies behind the partition, and the search starts at its first block.
  have hwrap : mtd.wrap ((k + 1) * mtd.erasesize) = 0 * mtd.erasesize := by
    have hsize := mtd.lt_size_iff (k + 1)
    unfold Mtd.wrap
    rw [if_pos (by omega), zero_mul]
  rw [hwrap] at h
  have hpos : 0 < mtd.blocks := by
    by_contra hnone
    have hlt := mtd.lt_size_iff 0
    rw [goodBlock, if_neg (by omega)] at h
    cases h
  obtain ⟨d, hoffs, hd, hgood, hall⟩ := goodBlock_scan hpos h
  have hmod : ∀ i, i ≤ d → (0 + i) % mtd.blocks = i := by
    intro i hi
    rw [zero_add, Nat.mod_eq_of_lt (by omega)]
  rw [hmod d (le_refl d)] at hoffs hgood
  refine ⟨d, hoffs, nextGood_of_first hblocks (not_lt.mp hk) hgood ?_⟩
  intro j hj
  have hbad := hall j hj
  rwa [hmod j (le_of_lt hj)] at hbad

/-! ### The search of `env_init` -/

def Mtd.cell (mtd : Mtd) (flash : Flash b) (j : Nat) : Option b.Copy :=
  flash mtd.index (j * mtd.erasesize)

lemma readNand_eq (hgood : mtd.Good j) (h : mtd.cell s.flash j = some e) :
    s.readNand mtd (j * mtd.erasesize) = some (s.withRead e) := by
  rw [State.readNand, if_neg (not_le.mpr hgood.lt_size)]
  exact read_eq h

lemma offs_lt_window (hj : j < nandEnvBlkLength) :
    j * mtd.erasesize < nandEnvBlkLength * mtd.erasesize :=
  (Nat.mul_lt_mul_right mtd.erasesize_pos).mpr hj

lemma nextBlk_bad (hj : j + 1 < nandEnvBlkLength) (hbad : ¬mtd.Good j) :
    nextBlk mtd s j (j * mtd.erasesize) = nextBlk mtd s (j + 1) ((j + 1) * mtd.erasesize) := by
  have hisbad : mtd.blockIsbad (j * mtd.erasesize) = true := by
    simpa [Mtd.Good] using hbad
  rw [nextBlk, if_pos ⟨offs_lt_window (by omega), hisbad⟩, if_neg (by omega), Nat.succ_mul]

lemma nextBlk_good (hj : j < nandEnvBlkLength) (hgood : mtd.Good j)
    (h : mtd.cell s.flash j = some e) : nextBlk mtd s j (j * mtd.erasesize) =
      if e.crc = 0xFFFFFFFF ∨ ¬e.CrcOk b then
        nextBlk mtd (s.withRead e) (j + 1) (nextOffs mtd (j + 1) (j * mtd.erasesize)) else
        ({ s.withRead e with envValid := mtd.index, nandBlock := j }, 0) := by
  have hnot : ¬(j * mtd.erasesize < nandEnvBlkLength * mtd.erasesize ∧
      mtd.blockIsbad (j * mtd.erasesize) = true) := by
    rintro ⟨-, hbad⟩
    rw [hgood] at hbad
    cases hbad
  have htwice : ¬nandEnvBlkLength * 2 ≤ j := by omega
  rw [nextBlk, if_neg hnot, if_neg htwice, readNand_eq hgood h]
  simp only [crcOk_withRead]
  by_cases herased : e.crc = 0xFFFFFFFF
  · rw [if_pos ⟨herased, hj⟩, if_pos (.inl herased)]
  · rw [if_neg fun hand => herased hand.1]
    by_cases hok : e.CrcOk b
    · rw [if_pos hok, if_neg (by simp [herased, hok]), Nat.mod_eq_of_lt hj]
    · rw [if_neg hok, if_pos (by omega), if_pos (.inr hok)]

lemma nextBlk_finds (hr : r < nandEnvBlkLength) (hgood : mtd.Good r) {image : b.Copy}
    (hcrc : image.crc ≠ 0xFFFFFFFF) (hok : image.CrcOk b) (himage : mtd.cell flash r = some image)
    (hclean : ∀ j, j < r → mtd.Good j → Clean (mtd.cell flash j)) (hs : s.flash = flash)
    (hj : j ≤ r) :
    ∃ t, nextBlk mtd s j (j * mtd.erasesize) = (t, 0) ∧ t.env.image = image ∧
      t.envValid = mtd.index ∧ t.nandBlock = r := by
  induction hm : r - j generalizing s j with
  | zero =>
    have heq : j = r := by omega
    subst heq
    rw [← hs] at himage
    rw [nextBlk_good hr hgood himage, if_neg (by simp [hcrc, hok])]
    exact ⟨_, rfl, image.image_readInto s.env, rfl, rfl⟩
  | succ m ih =>
    have hstep : nextOffs mtd (j + 1) (j * mtd.erasesize) = (j + 1) * mtd.erasesize := by
      rw [nextOffs, if_neg (by omega), Nat.succ_mul]
    by_cases hg : mtd.Good j
    · obtain ⟨e, he, hpass⟩ := hclean j (by omega) hg
      rw [← hs] at he
      rw [nextBlk_good (by omega) hg he, if_pos hpass, hstep]
      exact ih (s := s.withRead e) hs (by omega) (by omega)
    · rw [nextBlk_bad (by omega) hg]
      exact ih hs (by omega) (by omega)

structure Scanned (mtd : Mtd) (flash : Flash b) (blkCnt offs : Nat) : Prop where
  clean : ∀ j, j < nandEnvBlkLength → j < blkCnt → mtd.Good j → Clean (mtd.cell flash j)
  offs : blkCnt < nandEnvBlkLength → offs = blkCnt * mtd.erasesize

lemma Scanned.next {offs' : Nat} (h : Scanned mtd flash blkCnt offs)
    (hblock : blkCnt < nandEnvBlkLength → mtd.Good blkCnt → Clean (mtd.cell flash blkCnt))
    (hoffs : blkCnt + 1 < nandEnvBlkLength → offs' = offs + mtd.erasesize) :
    Scanned mtd flash (blkCnt + 1) offs' where
  clean := by
    intro j hj hlt hgood
    by_cases heq : j = blkCnt
    · subst heq
      exact hblock hj hgood
    · exact h.clean j hj (by omega) hgood
  offs := by
    intro hlt
    rw [hoffs hlt, h.offs (by omega), Nat.succ_mul]

lemma readNand_some (h : s.readNand mtd offs = some s') : s'.flash = s.flash ∧
      (offs < mtd.size → ∃ e, s.flash mtd.index offs = some e ∧ s' = s.withRead e) := by
  unfold State.readNand at h
  by_cases hend : mtd.size ≤ offs
  · rw [if_pos hend] at h
    cases h
    exact ⟨rfl, fun hlt => absurd hend (not_le.mpr hlt)⟩
  · rw [if_neg hend] at h
    obtain ⟨e, he, heq⟩ := Option.map_eq_some_iff.mp h
    subst heq
    exact ⟨rfl, fun _ => ⟨e, he, rfl⟩⟩

lemma Scanned.clean_of_read (hscan : Scanned mtd s.flash blkCnt offs)
    (hread : s.readNand mtd offs = some s') (hpass : s'.env.crc = 0xFFFFFFFF ∨ ¬s'.env.CrcOk b)
    (hlt : blkCnt < nandEnvBlkLength) (hgood : mtd.Good blkCnt) :
    Clean (mtd.cell s.flash blkCnt) := by
  have hoffs := hscan.offs hlt
  subst hoffs
  obtain ⟨e, he, rfl⟩ := (readNand_some hread).2 hgood.lt_size
  rw [crcOk_withRead] at hpass
  exact ⟨e, he, hpass⟩

lemma Scanned.clean_of_bad (hscan : Scanned mtd flash blkCnt offs)
    (hbad : mtd.blockIsbad offs = true) (hlt : blkCnt < nandEnvBlkLength)
    (hgood : mtd.Good blkCnt) :
    Clean (mtd.cell flash blkCnt) := by
  rw [hscan.offs hlt, hgood] at hbad
  cases hbad

lemma nextOffs_eq (offs : Nat) (h : blkCnt < nandEnvBlkLength) :
    nextOffs mtd blkCnt offs = offs + mtd.erasesize := if_neg (ne_of_lt h)

lemma nextBlk_passed (h : nextBlk mtd s blkCnt offs = (t, 0))
    (hscan : Scanned mtd s.flash blkCnt offs) : t.flash = s.flash ∧ t.envValid = mtd.index ∧
      ∀ j, j < t.nandBlock → mtd.Good j → Clean (mtd.cell s.flash j) := by
  fun_induction nextBlk mtd s blkCnt offs with
  | case1 s blkCnt offs hbad hnine ih =>
    exact ih h (hscan.next (hscan.clean_of_bad hbad.2) (by omega))
  | case2 s blkCnt offs hbad hnine ih =>
    exact ih h (hscan.next (hscan.clean_of_bad hbad.2) fun _ => rfl)
  | case3 => cases h
  | case4 => cases h
  | case5 s blkCnt offs hgood hmax s' hread herased ih =>
    have hclean := hscan.clean_of_read hread (.inl herased.1)
    rw [← (readNand_some hread).1] at hscan hclean ⊢
    exact ih h (hscan.next hclean (nextOffs_eq offs))
  | case6 s blkCnt offs hgood hmax s' hread herased hok =>
    cases h
    have hblock : blkCnt % nandEnvBlkLength < nandEnvBlkLength := Nat.mod_lt _ (by decide)
    have hle : blkCnt % nandEnvBlkLength ≤ blkCnt := Nat.mod_le _ _
    refine ⟨(readNand_some hread).1, rfl, ?_⟩
    intro j hj hg
    have hj' : j < blkCnt % nandEnvBlkLength := hj
    exact hscan.clean j (by omega) (by omega) hg
  | case7 s blkCnt offs hgood hmax s' hread herased hok hagain ih =>
    have hclean := hscan.clean_of_read hread (.inr hok)
    rw [← (readNand_some hread).1] at hscan hclean ⊢
    exact ih h (hscan.next hclean (nextOffs_eq offs))
  | case8 => cases h

/-! ### What `env_update` can do -/

def State.moved (s : State b) (mtd : Mtd) (r : Nat) : State b :=
  { s.setCell mtd.index (r * mtd.erasesize) (some s.env.image) with nandBlock := r }

inductive NandEnd (s : State b) (mtd : Mtd) (answers : Answers b) (r : Nat) (o : Outcome b) :
    Prop where
  | write (left : Option b.Copy)
      (hout : o.Stopped (s.setCell mtd.index (r * mtd.erasesize) left))
  | outside (hsize : mtd.size ≤ s.nandBlock * mtd.erasesize) (hout : o = .ret (s.moved mtd r) 1)
  | retire (left : Option b.Copy) (herase : answers.erase = .ok) (hwrite : answers.write = .ok)
      (hstop : answers.retire.Stops left)
      (hout : o.Stopped ((s.moved mtd r).setCell mtd.index (s.nandBlock * mtd.erasesize) left))
  | done (hok : answers = allOk b)
      (hout : o = .ret ((s.moved mtd r).setCell mtd.index (s.nandBlock * mtd.erasesize)
        (some (EnvT.erased b))) 0)

lemma updateNand_cases (s : State b) (mtd : Mtd) (answers : Answers b) :
    updateNand s mtd answers = .ret s 1 ∨ ∃ r, NextGood mtd.Good s.nandBlock r ∧
        NandEnd s mtd answers r (updateNand s mtd answers) := by
  cases hnew : newBlock mtd s.nandBlock with
  | none =>
    left
    unfold updateNand
    rw [hnew]
  | some offs =>
    right
    obtain ⟨r, rfl, hnext⟩ := newBlock_nextGood hnew
    refine ⟨r, hnext, ?_⟩
    obtain ⟨erase, write, retire⟩ := answers
    unfold updateNand
    simp only [hnew, Nat.mul_div_cancel r mtd.erasesize_pos]
    rcases flashOp_cases s mtd.index (r * mtd.erasesize) erase (some (EnvT.erased b)) _ with
      ⟨left, -, hout⟩ | ⟨herase, hgo⟩
    · exact .write left hout
    rw [hgo]
    rcases flashOp_cases (s.setCell mtd.index (r * mtd.erasesize) (some (EnvT.erased b)))
      mtd.index (r * mtd.erasesize) write _ _ with ⟨left, -, hout⟩ | ⟨hwrite, hgo⟩
    · rw [State.setCell_setCell] at hout
      exact .write left hout
    rw [hgo, State.setCell_setCell]
    by_cases hsize : mtd.size ≤ s.nandBlock * mtd.erasesize
    · rw [if_pos hsize]
      exact .outside hsize rfl
    rw [if_neg hsize]
    rcases flashOp_cases (s.moved mtd r) mtd.index (s.nandBlock * mtd.erasesize) retire
      (some (EnvT.erased b)) _ with ⟨left, hstop, hout⟩ | ⟨hretire, hlast⟩
    · exact .retire left herase hwrite hstop hout
    · subst herase hwrite hretire
      exact .done rfl hlast

/-! ### Runs -/

/-- The invariant of a run. If the next good block lies below `nand_block`, no good block lies
before it, and then nothing is needed. -/
structure State.Rotating (s : State b) : Prop where
  envValid : s.envValid = b.dev1.index
  clean : ∀ r, NextGood b.dev1.Good s.nandBlock r → s.nandBlock < r →
    ∀ j, j < s.nandBlock → j < nandEnvBlkLength → b.dev1.Good j →
      Clean (b.dev1.cell s.flash j)

lemma rotating_of_envInit (hb : b.boot = .nand) (h : envInit u = (s, 0)) : s.Rotating := by
  have hsearch : nextBlk b.dev1 { u with mtdInit := true } 0 0 = (s, 0) := by
    rw [← h]
    simp [envInit, hb]
  have hstart : Scanned b.dev1 u.flash 0 0 := ⟨by omega, by omega⟩
  obtain ⟨hflash, hvalid, hclean⟩ := nextBlk_passed hsearch hstart
  refine ⟨hvalid, ?_⟩
  intro r _ _ j hj _ hgood
  rw [hflash]
  exact hclean j hj hgood

lemma cell_setCell_same (s : State b) (j : Nat) (e : Option b.Copy) :
    mtd.cell (s.setCell mtd.index (j * mtd.erasesize) e).flash j = e := s.setCell_same _ _ e

lemma cell_setCell_other (s : State b) (h : j ≠ k) (e : Option b.Copy) :
    mtd.cell (s.setCell mtd.index (k * mtd.erasesize) e).flash j = mtd.cell s.flash j := by
  refine s.setCell_other e (.inr ?_)
  intro heq
  exact h (Nat.eq_of_mul_eq_mul_right mtd.erasesize_pos heq)

lemma State.Rotating.clean_moved (h : s.Rotating)
    (hnext : NextGood b.dev1.Good s.nandBlock r) (hj : j < r) (hwindow : j < nandEnvBlkLength)
    (hgood : b.dev1.Good j) (hne : j ≠ s.nandBlock) (left : Option b.Copy) :
    Clean (b.dev1.cell ((s.moved b.dev1 r).setCell b.dev1.index
      (s.nandBlock * b.dev1.erasesize) left).flash j) := by
  obtain ⟨hle, hlt⟩ := hnext.of_lt hgood hj
  rw [cell_setCell_other _ hne]
  show Clean (b.dev1.cell (s.setCell b.dev1.index (r * b.dev1.erasesize) _).flash j)
  rw [cell_setCell_other _ (ne_of_lt hj)]
  exact h.clean r hnext hlt j (by omega) hwindow hgood

lemma clean_erased (b : Board) : Clean (b := b) (some (EnvT.erased b)) := ⟨_, rfl, .inl rfl⟩

lemma State.Rotating.step (h : s.Rotating) {answers : Answers b}
    (hstale : ∀ left, answers.erase = .ok → answers.write = .ok → answers.retire.Stops left →
      Clean left ∨ nandEnvBlkLength ≤ s.nandBlock ∨ ∀ r, NextGood b.dev1.Good s.nandBlock r →
          r < s.nandBlock ∨ ∀ j, r < j → ¬b.dev1.Good j)
    {rcode : Nat} (hupd : updateNand s b.dev1 answers = .ret t rcode) : t.Rotating := by
  rcases updateNand_cases s b.dev1 answers with hnone | ⟨r, hnext, hend⟩
  · rw [hupd] at hnone
    cases hnone
    exact h
  rw [hupd] at hend
  cases hend with
  | write left hout =>
    rcases hout with hout | hout
    · cases hout
      refine ⟨h.envValid, ?_⟩
      intro r' hnext' hlt j hj hwindow hgood
      have heq := hnext.unique hnext'
      subst heq
      rw [cell_setCell_other s (by omega)]
      exact h.clean r hnext hlt j hj hwindow hgood
    · cases hout
  | outside hsize hout =>
    cases hout
    refine ⟨h.envValid, ?_⟩
    intro r' _ _ j hj _ hgood
    -- A block that does not exist is not the one before block `r`.
    have hlt := (hnext.of_lt hgood hj).2
    have hk := b.dev1.lt_size_iff s.nandBlock
    have hr := hnext.holds.lt_blocks
    omega
  | retire left herase hwrite hstop hout =>
    rcases hout with hout | hout
    · cases hout
      refine ⟨h.envValid, ?_⟩
      intro r' hnext' hlt j hj hwindow hgood
      by_cases heq : j = s.nandBlock
      · subst heq
        rw [cell_setCell_same]
        rcases hstale left herase hwrite hstop with hclean | houtside | hlast
        · exact hclean
        · omega
        have hk := (hnext.of_lt hgood hj).2
        rcases hlast r hnext with hbelow | hnone
        · omega
        · exact absurd hnext'.holds (hnone r' hlt)
      · exact h.clean_moved hnext hj hwindow hgood heq left
    · cases hout
  | done hok hout =>
    cases hout
    refine ⟨h.envValid, ?_⟩
    intro r' _ _ j hj hwindow hgood
    by_cases heq : j = s.nandBlock
    · subst heq
      rw [cell_setCell_same]
      exact clean_erased b
    · exact h.clean_moved hnext hj hwindow hgood heq _

/-- With the first partition as device `0`, `env_update` works on the partition that `env_init`
reads. -/
theorem State.Rotating.envUpdate_eq (hb : b.boot = .nand) (hindex : b.dev1.index = 0)
    (h : s.Rotating) (op : Update b) : envUpdate (s.withBuf op.buf) op.answers
      = some (updateNand (s.withBuf op.buf).withCrc b.dev1 op.answers) := by
  have hvalid : (s.withBuf op.buf).envValid = 0 := h.envValid.trans hindex
  rw [envUpdate_nand hb, hvalid]
  rfl

lemma NandReachable.rotating (hb : b.boot = .nand) (hindex : b.dev1.index = 0)
    (h : NandReachable s) : s.Rotating := by
  refine Reach.invariant State.Rotating ?_ ?_ h
  · rintro s ⟨u, hu⟩
    exact rotating_of_envInit hb hu
  · rintro op s t hs ⟨hrot, rcode, hupd⟩
    rw [hs.envUpdate_eq hb hindex] at hupd
    have hs' : (s.withBuf op.buf).withCrc.Rotating := ⟨hs.envValid, hs.clean⟩
    exact hs'.step hrot.stale (Option.some.inj hupd)

/-! ### A board with NAND boot -/

def nandMtd : Mtd where
  index := 0
  size := 0x40000
  erasesize := 0x10000
  isbad := fun _ => false
  room := Nat.le_refl _
  whole := by decide
  addr32 := by decide

/-- A board with NAND flash. -/
def nandBoard : Board where
  boot := .nand
  norErase := none
  dev1 := nandMtd
  dev2 := { nandMtd with index := 1 }
  apart := by decide

def nandBuf (first last : UInt8) : Buf (nandBoard.viewLen (nandBoard.norEnvMaxSize - 5)) where
  bytes := first :: replicate 65530 0 ++ [last]
  len := by
    rw [length_append, length_cons, length_replicate]
    show _ = 65532
    rfl
  stores := []

lemma nandBuf_checksum : ∃ last, envCrc32 nandBoard (nandBuf 0 last).bytes ≠ 0xFFFFFFFF := by
  have hlen : nandBoard.envLen = ((0 : UInt8) :: replicate 65530 0).length + 1 := by
    rw [length_cons, length_replicate]
    rfl
  have hne := crc32_concat_ne ((0 : UInt8) :: replicate 65530 0)
  rw [← hlen] at hne
  by_cases hzero : envCrc32 nandBoard (nandBuf 0 0).bytes = 0xFFFFFFFF
  · refine ⟨1, fun hone => hne ?_⟩
    exact hzero.trans hone.symm
  · exact ⟨0, hzero⟩

lemma envUpdate_moved (hb : b.boot = .nand) (hindex : b.dev1.index = 0)
    (hvalid : s.envValid = b.dev1.index) (hblock : s.nandBlock = k)
    (hnew : newBlock b.dev1 k = some (r * b.dev1.erasesize))
    (hin : k * b.dev1.erasesize < b.dev1.size) (retire : Answer b) : envUpdate s ⟨.ok, .ok, retire⟩
      = some (flashOp (s.withCrc.moved b.dev1 r) b.dev1.index (k * b.dev1.erasesize) retire
          (some (EnvT.erased b)) fun s => .ret s 0) := by
  have hblock' : s.withCrc.nandBlock = k := hblock
  rw [envUpdate_nand hb, hvalid.trans hindex]
  show some (updateNand s.withCrc b.dev1 _) = _
  unfold updateNand
  simp only [hblock', hnew, Nat.mul_div_cancel r b.dev1.erasesize_pos, flashOp,
    State.setCell_setCell]
  rw [if_neg (not_le.mpr hin)]
  rfl

lemma envInit_first (hb : b.boot = .nand) (hcrc : e.crc ≠ 0xFFFFFFFF)
    (hok : e.CrcOk b) (hgood : b.dev1.Good 0) (hu : b.dev1.cell u.flash 0 = some e) :
    ∃ t, envInit u = (t, 0) ∧ t.env.image = e ∧ t.envValid = b.dev1.index ∧ t.nandBlock = 0 := by
  obtain ⟨t, ht, himage, hvalid, hblock⟩ := nextBlk_finds (by decide) hgood hcrc hok hu
    (by omega) (s := { u with mtdInit := true }) rfl (le_refl 0)
  rw [zero_mul] at ht
  refine ⟨t, ?_, himage, hvalid, hblock⟩
  simp only [envInit, hb]
  exact ht

lemma exists_nandBooted (hb : b.boot = .nand) (hgood : b.dev1.Good 0) (w : State b)
    {buf : Buf (b.viewLen (b.norEnvMaxSize - 5))} (hcrc : envCrc32 b buf.bytes ≠ 0xFFFFFFFF) :
    ∃ flash s, envInit { w with flash := flash } = (s, 0) ∧
      s.env.image = (w.withBuf buf).withCrc.env.image ∧
      s.env.image.crc ≠ 0xFFFFFFFF ∧ s.env.image.CrcOk b ∧ s.envValid = b.dev1.index ∧
      s.nandBlock = 0 := by
  let e := (w.withBuf buf).withCrc.env.image
  have hview : (w.withBuf buf).env.view b = buf.bytes := w.env.view_withView buf.bytes buf.len
  have hcrc' : e.crc ≠ 0xFFFFFFFF := by
    show envCrc32 b ((w.withBuf buf).env.view b) ≠ _
    rw [hview]
    exact hcrc
  have hok : e.CrcOk b := (EnvT.crcOk_image _).mpr (crcOk_withCrc _)
  obtain ⟨s, hs, himage, hvalid, hblock⟩ := envInit_first hb hcrc' hok hgood
    (u := { w with flash := fun _ _ => some e }) rfl
  refine ⟨_, s, hs, himage, ?_, ?_, hvalid, hblock⟩
  · rw [himage]
    exact hcrc'
  · rw [himage]
    exact hok

lemma nandMtd_newBlock_zero : newBlock nandMtd 0 = some (1 * nandMtd.erasesize) := by
  rw [newBlock, goodBlock]
  rfl

lemma nandMtd_newBlock_one : newBlock nandMtd 1 = some (2 * nandMtd.erasesize) := by
  rw [newBlock, goodBlock]
  rfl

def nandState : State nandBoard where
  envPtr := true
  env :=
    { crc := 0
      flags := 0
      data := replicate 65531 0
      len := length_replicate }
  mtdInit := true
  envValid := 0
  envInvalid := envInvalidIndex
  nandBlock := 0
  flash := fun _ _ => none

/-- A copy in the first block survives two calls: in the first one its erase fails, and the second
one does not touch it. -/
theorem stale_loaded (hb : b.boot = .nand) (hindex : b.dev1.index = 0) (hgood : b.dev1.Good 0)
    (h0 : newBlock b.dev1 0 = some (1 * b.dev1.erasesize))
    (h1 : newBlock b.dev1 1 = some (2 * b.dev1.erasesize))
    (hsize : 1 * b.dev1.erasesize < b.dev1.size) (hvalid : s.envValid = b.dev1.index)
    (hblock : s.nandBlock = 0) (hcrc : e.crc ≠ 0xFFFFFFFF) (hok : e.CrcOk b)
    (buf buf' : Buf (b.viewLen (b.norEnvMaxSize - 5))) : ∃ t u : State b,
      envUpdate (s.withBuf buf) ⟨.ok, .ok, .err (some e)⟩ = some (.ret t 1) ∧
      envUpdate (t.withBuf buf') (allOk b) = some (.ret u 0) ∧
      ∀ w : State b, w.flash = u.flash → ∃ v, envInit w = (v, 0) ∧ v.env.image = e := by
  have hfirst := envUpdate_moved (s := s.withBuf buf) hb hindex hvalid hblock h0 hgood.lt_size
    (.err (some e))
  let t := ((s.withBuf buf).withCrc.moved b.dev1 1).setCell b.dev1.index
    (0 * b.dev1.erasesize) (some e)
  have hsecond := envUpdate_moved (s := t.withBuf buf') (k := 1) hb hindex hvalid rfl h1 hsize .ok
  refine ⟨t, _, hfirst, hsecond, ?_⟩
  intro w hw
  have hcell : b.dev1.cell w.flash 0 = some e := by
    rw [hw, cell_setCell_other _ (by decide)]
    show b.dev1.cell ((t.withBuf buf').withCrc.setCell _ (2 * b.dev1.erasesize) _).flash 0 = _
    rw [cell_setCell_other _ (by decide)]
    exact cell_setCell_same _ 0 _
  obtain ⟨v, hv, himage, -⟩ := envInit_first hb hcrc hok hgood hcell
  exact ⟨v, hv, himage⟩

/-! ### What the next boot loads -/

/-- In a run with NAND boot whose calls of `env_update` all meet the condition: whenever
`env_update` returns `0`, `env_init` on the flash that it leaves loads the environment that the call
wrote. -/
theorem updateNand_loads (hb : b.boot = .nand) (hindex : b.dev1.index = 0) {s t : State b}
    (hs : NandReachable s) (op : Update b) (hrot : op.answers.Rotates (s.withBuf op.buf))
    (hupd : envUpdate (s.withBuf op.buf) op.answers = some (.ret t 0)) (u : State b)
    (hu : u.flash = t.flash) :
    ∃ v, envInit u = (v, 0) ∧ v.env.image = (s.withBuf op.buf).withCrc.env.image ∧
      v.envValid = t.envValid ∧ v.nandBlock = t.nandBlock := by
  have hinv := hs.rotating hb hindex
  rw [hinv.envUpdate_eq hb hindex] at hupd
  have hupd' := Option.some.inj hupd
  let w := (s.withBuf op.buf).withCrc
  have hw : w.Rotating := ⟨hinv.envValid, hinv.clean⟩
  rcases updateNand_cases w b.dev1 op.answers with hnone | ⟨r, hnext, hend⟩
  · rw [hupd'] at hnone
    injection hnone with _ hrcode
    cases hrcode
  rw [hupd'] at hend
  cases hend with
  | write left hout => exact absurd rfl hout.ne_ret
  | outside hsize hout =>
    injection hout with _ hrcode
    cases hrcode
  | retire left herase hwrite hstop hout => exact absurd rfl hout.ne_ret
  | done hok hout =>
    cases hout
    have hr := hrot.window hok r hnext
    -- The image is written to block `r`, and every good block before it is clean.
    have himage : b.dev1.cell u.flash r = some w.env.image := by
      rw [hu, cell_setCell_other _ hnext.ne]
      exact cell_setCell_same w r _
    have hclean : ∀ j, j < r → b.dev1.Good j → Clean (b.dev1.cell u.flash j) := by
      intro j hj hgood
      rw [hu]
      by_cases heq : j = w.nandBlock
      · subst heq
        rw [cell_setCell_same]
        exact clean_erased b
      · exact hw.clean_moved hnext hj (Nat.lt_trans hj hr) hgood heq _
    have hok' : w.env.image.CrcOk b := (EnvT.crcOk_image _).mpr (crcOk_withCrc _)
    obtain ⟨v, hv, himage', hvalid, hblock⟩ := nextBlk_finds hr hnext.holds (hrot.checksum hok)
      hok' himage hclean (s := { u with mtdInit := true }) rfl (Nat.zero_le r)
    rw [Nat.zero_mul] at hv
    refine ⟨v, ?_, himage', hvalid.trans hw.envValid.symm, hblock⟩
    simp only [envInit, hb]
    exact hv

/-- On the NAND board the data of the first block can be written to the second one, and the next
boot loads them. -/
theorem nandBoard_update : ∃ (s t : State nandBoard) (op : Update nandBoard), NandReachable s ∧
      envUpdate (s.withBuf op.buf) op.answers = some (.ret t 0) ∧
      ∃ v, envInit t = (v, 0) ∧ v.env.image = (s.withBuf op.buf).withCrc.env.image := by
  obtain ⟨last, hlast⟩ := nandBuf_checksum
  obtain ⟨_, s, hboot, -, -, -, hvalid, hblock⟩ :=
    exists_nandBooted (b := nandBoard) rfl rfl nandState hlast
  let op : Update nandBoard := ⟨nandBuf 0 last, allOk nandBoard⟩
  have hs : NandReachable s := .start ⟨_, hboot⟩
  have hrot : op.answers.Rotates (s.withBuf op.buf) := by
    refine ⟨?_, ?_, ?_⟩
    · intro _ r hnext
      have hr : r * 0x10000 < 0x40000 := hnext.holds.lt_size
      show r < 9
      omega
    · intro _
      exact hlast
    · rintro left - - (h | h) <;> cases h
  have hupd := envUpdate_moved (s := s.withBuf op.buf) rfl rfl hvalid hblock nandMtd_newBlock_zero
    (by decide) .ok
  obtain ⟨v, hv, himage, -⟩ := updateNand_loads rfl rfl hs op hrot hupd _ rfl
  exact ⟨s, _, op, hs, hupd, v, hv, himage⟩

/-- The erase of the first block fails and leaves the old copy there. The update succeeds, but the
next boot loads the old copy. -/
theorem nandBoard_stale : ∃ s t u : State nandBoard, NandBooted s ∧
      envUpdate (s.withBuf (nandBuf 1 0)) ⟨.ok, .ok, .err (some s.env.image)⟩ = some (.ret t 1) ∧
      envUpdate (t.withBuf (nandBuf 2 0)) (allOk nandBoard) = some (.ret u 0) ∧
      ∀ w : State nandBoard, w.flash = u.flash → ∃ v, envInit w = (v, 0) ∧
        v.env.image = s.env.image ∧ v.env.image ≠ (t.withBuf (nandBuf 2 0)).withCrc.env.image := by
  obtain ⟨last, hlast⟩ := nandBuf_checksum
  obtain ⟨_, s, hboot, himage, hcrc, hok, hvalid, hblock⟩ :=
    exists_nandBooted (b := nandBoard) rfl rfl nandState hlast
  obtain ⟨t, u, hfirst, hsecond, hload⟩ := stale_loaded (b := nandBoard) rfl rfl rfl
    nandMtd_newBlock_zero nandMtd_newBlock_one (by decide) hvalid hblock hcrc hok
    (nandBuf 1 0) (nandBuf 2 0)
  refine ⟨s, t, u, ⟨_, hboot⟩, hfirst, hsecond, ?_⟩
  intro w hw
  obtain ⟨v, hv, hold⟩ := hload w hw
  refine ⟨v, hv, hold, ?_⟩
  intro heq
  have hflags := congrArg EnvT.flags (himage.symm.trans (hold.symm.trans heq))
  have hne : (0 : UInt8) ≠ 2 := by decide
  exact hne hflags

end Wm8850.Env
