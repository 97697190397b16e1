import Wm8850.Proofs.Env.Copies
import Wm8850.Proofs.Env.Search

/-! # The indexes of `env_update`

`env_update` looks at `mtd_table[env_valid]` and `mtd_table[env_invalid]` with every boot flash, but
only `read_env_after_mtd_init` sets both to indexes of the table. With NAND boot `env_invalid` stays
at `ENV_INVALID`. Before the partitions are registered both are numbers of `boot_partitions`. -/

namespace Wm8850.Env

open Option

variable {b : Board}

/-- The table is filled, both indexes are inside, and the copy in the buffer is from the device at
`env_valid`. -/
structure Kernel.Indexed (k : Kernel b) : Prop where
  table : k.table = true
  valid : ∃ mtd offs, b.mtdTable k.state.envValid = some mtd ∧
    k.state.flash mtd.index offs = some k.state.env.image
  invalid : (b.mtdTable k.state.envInvalid).isSome

/-- Any calls that come back, from the initial values, with any flash and any registered partitions
at each one. Without a table `env_update` does not come back. -/
inductive EnvReachable : Kernel b → Prop where
  | start {s} (h : s.envInvalid = envInvalidIndex) : EnvReachable ⟨s, false, false⟩
  | flash {k} (h : EnvReachable k) (flash : Flash b) :
      EnvReachable { k with state := { k.state with flash := flash } }
  | init {k} (h : EnvReachable k) (registered : Bool) (norPartitions : List String)
      (copies : Bool → Option b.Copy) : EnvReachable (k.envInit registered norPartitions copies).1
  | update {k t rcode} (h : EnvReachable k) (op : Update b) (htable : k.table = true)
      (hupd : envUpdate (k.state.withBuf op.buf) op.answers = some (.ret t rcode)) :
      EnvReachable { k with state := t }

variable {mtd : Mtd} {s s' t : State b} {offs rcode : Nat} {answers : Answers b}

/-! ### With NAND boot nothing sets `env_invalid` -/

lemma readNand_envInvalid (h : s.readNand mtd offs = some s') : s'.envInvalid = s.envInvalid := by
  unfold State.readNand at h
  split at h
  · cases h
    rfl
  · obtain ⟨e, -, rfl⟩ := map_eq_some_iff.mp h
    rfl

lemma nextBlk_envInvalid (mtd : Mtd) (s : State b) (blkCnt offs : Nat) :
    (nextBlk mtd s blkCnt offs).1.envInvalid = s.envInvalid := by
  fun_induction nextBlk mtd s blkCnt offs with
  | case1 _ _ _ _ _ ih => exact ih
  | case2 _ _ _ _ _ ih => exact ih
  | case3 => rfl
  | case4 => rfl
  | case5 _ _ _ _ _ _ hread _ ih => exact ih.trans (readNand_envInvalid hread)
  | case6 _ _ _ _ _ s' hread => exact (readNand_envInvalid hread : s'.envInvalid = _)
  | case7 _ _ _ _ _ _ hread _ _ _ ih => exact ih.trans (readNand_envInvalid hread)
  | case8 _ _ _ _ _ _ hread => exact readNand_envInvalid hread

lemma updateNand_envInvalid (h : updateNand s mtd answers = .ret t rcode) :
    t.envInvalid = s.envInvalid := by
  rcases updateNand_cases s mtd answers with hret | ⟨r, -, hend⟩
  · rw [h] at hret
    cases hret
    rfl
  rw [h] at hend
  cases hend with
  | outside hsize hout =>
    cases hout
    rfl
  | done hok hout =>
    cases hout
    rfl
  | write left hout | retire left _ _ _ hout =>
    rcases hout with hout | hout
    · cases hout
      rfl
    · cases hout

lemma envInit_envInvalid (hb : b.boot = .nand) (s : State b) :
    (envInit s).1.envInvalid = s.envInvalid := by
  simp only [envInit, hb]
  exact nextBlk_envInvalid _ _ _ _

lemma EnvReachable.envInvalid {k : Kernel b} (hb : b.boot = .nand) (hk : EnvReachable k) :
    k.state.envInvalid = envInvalidIndex := by
  induction hk with
  | start h => exact h
  | flash _ _ ih => exact ih
  | init _ registered _ _ ih =>
    unfold Kernel.envInit
    split
    · exact (envInit_envInvalid hb _).trans ih
    · rw [hb]
      exact ih
  | update _ op _ hupd ih =>
    rw [envUpdate_nand hb] at hupd
    obtain ⟨mtd, -, hret⟩ := map_eq_some_iff.mp hupd
    exact (updateNand_envInvalid hret).trans ih

/-- One of the two copies was taken, and the other one is `env_invalid`. -/
lemma indexed_of_read {k : Kernel b} (htable : k.table = true)
    (h : readEnvAfterMtdInit s = (k.state, 0)) : k.Indexed := by
  obtain ⟨i, hi⟩ := coherent_of_read h
  refine ⟨htable, ⟨b.dev i, 0, ?_, hi.stored⟩, ?_⟩
  · rw [hi.envValid, mtdTable_toNat]
  · rw [hi.envInvalid, mtdTable_toNat]
    rfl

/-- After a successful `env_init` both indexes are right if and only if the boot flash is not NAND
and the table is filled: the partitions are registered, or were at an earlier call. -/
theorem envInit_indexed_iff {k k' : Kernel b} (registered : Bool) (norPartitions : List String)
    (copies : Bool → Option b.Copy) (hk : EnvReachable k)
    (h : k.envInit registered norPartitions copies = (k', 0)) :
    k'.Indexed ↔ b.boot ≠ .nand ∧ (registered = true ∨ k.table = true) := by
  have hkeep : k'.Indexed → b.boot ≠ .nand := by
    intro hi hb
    have hreach := hk.init registered norPartitions copies
    rw [h] at hreach
    have hsome := hi.invalid
    rw [hreach.envInvalid hb] at hsome
    cases hsome
  unfold Kernel.envInit at h
  split at h
  · rename_i hreg
    obtain ⟨rfl, hret⟩ := Prod.mk.inj h
    refine ⟨fun hi => ⟨hkeep hi, .inl hreg⟩, fun hc => ?_⟩
    unfold envInit at hret
    cases hboot : b.boot with
    | nand => exact absurd hboot hc.1
    | emmc =>
      rw [hboot] at hret
      cases hret
    | spi | nor =>
      rw [hboot] at hret
      refine indexed_of_read (s := { k.state with mtdInit := true }) rfl (Prod.ext ?_ hret)
      simp only [envInit, hboot]
  rename_i hreg
  split at h
  · cases h
  · cases h
  all_goals
    rename_i hboot
    split at h
    · rename_i htable
      obtain ⟨rfl, hret⟩ := Prod.mk.inj h
      exact ⟨fun hi => ⟨hkeep hi, .inr htable⟩,
        fun _ => indexed_of_read (s := k.state) htable (Prod.ext rfl hret)⟩
    · -- nothing fills the table
      rename_i htable
      have hempty : k'.table = k.table := by
        split at h
        · exact (congrArg (fun r => r.1.table) h).symm
        · exact (congrArg (fun r => r.1.table) h).symm
      exact ⟨fun hi => absurd (hempty.symm.trans hi.table) htable,
        fun hc => (hc.2.elim hreg htable).elim⟩

theorem envInit_indexed_spiBoard : ∃ k k' : Kernel spiBoard,
    k.envInit true [] (fun _ => none) = (k', 0) ∧ k'.Indexed := by
  let w : State spiBoard := { spiState [] (by decide) with envInvalid := envInvalidIndex }
  obtain ⟨flash, t, ht⟩ := readEnvAfterMtdInit_active (by decide) w
  have hinit : (Kernel.mk { w with flash := flash } false false).envInit true [] (fun _ => none) =
      (⟨t, true, false⟩, 0) := by
    unfold Kernel.envInit
    rw [if_pos rfl]
    exact congrArg (fun r : State spiBoard × Nat => (Kernel.mk r.1 true false, r.2)) ht
  exact ⟨_, _, hinit, (envInit_indexed_iff true [] _ (.start rfl) hinit).mpr ⟨by decide, .inl rfl⟩⟩

/-- An active copy in the first partition is enough for the early read. -/
lemma readEnvBeforeMtdInit_active (hb : b.boot ≠ .nand) (s : State b) (uenv : Nat × Nat)
    (henv : uenv.1 ≠ envInvalidIndex) :
    ∃ t, readEnvBeforeMtdInit s uenv (fun _ => some s.activeImage) = (t, 0) ∧
      t.envValid = uenv.1 ∧ t.envInvalid = uenv.2 := by
  have hok : s.activeImage.CrcOk b :=
    crcOk_of_grade (by rw [grade_activeImage hb s]; decide)
  have htaken : (s.activeImage.readInto s.env).flags = 1 ∧ (s.activeImage.readInto s.env).CrcOk b :=
    ⟨rfl, (s.activeImage.crcOk_readInto s.env).mpr hok⟩
  simp only [readEnvBeforeMtdInit, earlyTurn, if_neg henv]
  rw [if_pos htaken]
  exact ⟨_, rfl, rfl, rfl⟩

/-- With NAND boot `env_update` looks at `mtd_table[0xFF]`. With SPI boot before the partitions are
registered it looks at `mtd_table[3]` and `mtd_table[4]`. -/
theorem envInit_outside :
    (∃ k k' : Kernel nandBoard, EnvReachable k ∧ k.envInit true [] (fun _ => none) = (k', 0) ∧
      k'.state.envInvalid = 0xFF ∧ ¬k'.Indexed) ∧
    ∃ (k k' : Kernel spiBoard) (copies : Bool → Option spiBoard.Copy),
      EnvReachable k ∧ k.envInit false [] copies = (k', 0) ∧
      k'.state.envValid = 3 ∧ k'.state.envInvalid = 4 ∧ ¬k'.Indexed := by
  constructor
  · obtain ⟨last, hlast⟩ := nandBuf_checksum
    obtain ⟨flash, t, ht, -⟩ := exists_nandBooted (b := nandBoard) rfl rfl nandState hlast
    have hkeep := envInit_envInvalid (b := nandBoard) rfl { nandState with flash := flash }
    rw [ht] at hkeep
    refine ⟨⟨{ nandState with flash := flash }, false, false⟩, ⟨t, true, false⟩, .start rfl, ?_,
      hkeep, fun hi => ?_⟩
    · unfold Kernel.envInit
      rw [if_pos rfl]
      exact congrArg (fun r : State nandBoard × Nat => (Kernel.mk r.1 true false, r.2)) ht
    · have hsome := hi.invalid
      rw [hkeep] at hsome
      cases hsome
  · let w : State spiBoard := { spiState [] (by decide) with envInvalid := envInvalidIndex }
    have huenv : spiBoard.uenv [] = (3, 4) := by decide
    obtain ⟨t, ht, hvalid, hinvalid⟩ :=
      readEnvBeforeMtdInit_active (by decide) w (3, 4) (by decide)
    refine ⟨⟨w, false, false⟩, ⟨t, false, true⟩, fun _ => some w.activeImage, .start rfl, ?_,
      hvalid, hinvalid, fun hi => Bool.false_ne_true hi.table⟩
    show (_, _) = _
    rw [huenv, ht]
    rfl

end Wm8850.Env
