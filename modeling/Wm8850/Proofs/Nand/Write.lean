import Wm8850.Nand.Randomizer

/-! # What a return value of `0` says

The call skipped the page, or it issued the program operation, and then returns `-EIO` exactly if
the chip or the verification reports a failure. The DMA engine is not a part of that. -/

namespace Wm8850.Nand

open List Option

/-- The data was transferred. -/
structure Outcome.Transferred (o : Outcome) : Prop where
  dmaEn : o.dmaEn = true
  transferReady : o.transferReady = true
  evtCode : o.evtCode = nandPdmaCcrEvtSuccess

/-- The program operation failed, or the data that is read back is another one. -/
def Driver.Reports (d : Driver) (o : Outcome) : Prop :=
  d.programStatus o &&& nandStatusFail ≠ 0 ∨ d.verifyWrite = true ∧ o.verifyBuf ≠ 0

/-- The page is below `par4_ofs`, and its partition has no block left for it. -/
def Chip.Skips (c : Chip) (page : Nat) : Prop :=
  c.Hynix ∧ page < c.par4Ofs ∧ eslcPartPage c page = some .skip

/-- The data of the call is loaded, a page program is issued for it, and the status is read. -/
def Driver.Programs (d : Driver) (b : Buffers) (page : Nat) (ops : List BusOp) : Prop :=
  ∃ q t before after, (wmtNandWritePage d.chip page).map WritePage.target = some (.page q) ∧
    ops = before ++ [.load (d.stored b q), .seqin (.page t), .pageprog, .waitfunc] ++ after

instance (o : Outcome) : Decidable o.Transferred :=
  decidable_of_iff (o.dmaEn = true ∧ o.transferReady = true ∧ o.evtCode = nandPdmaCcrEvtSuccess)
    ⟨fun h => ⟨h.1, h.2.1, h.2.2⟩, fun h => ⟨h.1, h.2, h.3⟩⟩

instance (d : Driver) (o : Outcome) : Decidable (d.Reports o) := inferInstanceAs (Decidable (_ ∨ _))

/-! ### The page -/

lemma wmtNandCmdfunc_seqin (c : Chip) (q : Nat) :
    ∃ t, wmtNandCmdfunc c .seqin q = some (.page t) := by
  unfold wmtNandCmdfunc
  by_cases hid : c.id = 0xECDED57A
  · rw [if_pos hid]
    by_cases hhigh : q ≥ 4096 * 128
    · exact ⟨_, if_pos hhigh⟩
    · exact ⟨_, if_neg hhigh⟩
  · rw [if_neg hid, if_neg (by simp)]
    exact ⟨_, rfl⟩

lemma eslcWholePage_ne_skip (c : Chip) (page : Nat) : eslcWholePage c page ≠ some .skip := by
  unfold eslcWholePage
  intro h
  split at h
  · cases h
  simp only at h
  split at h
  · cases h
  · obtain ⟨e, -, he⟩ := map_eq_some_iff.mp h
    cases he

lemma wmtNandWritePage_skip_iff (c : Chip) (page : Nat) :
    (wmtNandWritePage c page).map WritePage.target = some .skip ↔ c.Skips page := by
  unfold wmtNandWritePage Chip.Skips
  simp only
  by_cases hwhole : c.Whole
  · -- the page of a chip that is wholly in ESLC mode is never skipped
    have hnot : ¬ c.Hynix := fun h => h.2.2 hwhole.2.2
    rw [if_pos hwhole, Option.map_map]
    constructor
    · intro h
      obtain ⟨t, ht, hskip⟩ := Option.map_eq_some_iff.mp h
      exact absurd (ht.trans (congrArg some hskip)) (eslcWholePage_ne_skip c page)
    · intro h
      exact absurd h.1 hnot
  rw [if_neg hwhole]
  by_cases hc : c.Hynix
  · rw [if_pos hc]
    by_cases hpar : page < c.par4Ofs
    · rw [if_pos hpar]
      cases hmap : eslcPartPage c page with
      | none => simp
      | some t =>
        cases t with
        | skip => simp [hc, hpar]
        | page q =>
          split <;> simp
    rw [if_neg hpar]
    simp only [hpar]
    split
    · split <;> simp
    · split <;> simp
  · simp [hc]

/-! ### The call -/

lemma programPage_eq {d : Driver} {o : Outcome} {b : Buffers} {q : Nat} {before : List BusOp}
    {r : WriteRun} (hrun : programPage d o b q before = some r) : (∃ t after, r.ops =
      before ++ [.load (d.stored b q), .seqin (.page t), .pageprog, .waitfunc] ++ after) ∧
    r.ret = if d.Reports o then - EIO else 0 := by
  obtain ⟨t, ht⟩ := wmtNandCmdfunc_seqin d.chip q
  unfold programPage at hrun
  rw [ht] at hrun
  simp only [bind_eq_bind, bind_some, append_assoc] at hrun
  simp only [append_assoc]
  by_cases hfail : d.programStatus o &&& nandStatusFail ≠ 0
  · rw [if_pos hfail] at hrun
    cases hrun
    exact ⟨⟨t, [], rfl⟩, (if_pos (.inl hfail)).symm⟩
  rw [if_neg hfail] at hrun
  by_cases hverify : d.verifyWrite = true
  · rw [if_pos hverify] at hrun
    obtain ⟨v, -, hrun⟩ := bind_eq_some_iff.mp hrun
    by_cases hbuf : o.verifyBuf ≠ 0
    · rw [if_pos hbuf] at hrun
      cases hrun
      exact ⟨⟨t, [.read0 v], rfl⟩, (if_pos (.inr ⟨hverify, hbuf⟩)).symm⟩
    rw [if_neg hbuf] at hrun
    cases hrun
    refine ⟨⟨t, [.read0 v], rfl⟩, (if_neg ?_).symm⟩
    rintro (h | ⟨-, h⟩)
    exacts [hfail h, hbuf h]
  rw [if_neg hverify] at hrun
  cases hrun
  refine ⟨⟨t, [], rfl⟩, (if_neg ?_).symm⟩
  rintro (h | ⟨h, -⟩)
  exacts [hfail h, hverify h]

lemma wmtNandWritePageRun_cases {d : Driver} {o : Outcome} {b : Buffers} {page : Nat}
    {r : WriteRun} (hrun : wmtNandWritePageRun d o b page = some r) :
    (d.chip.Skips page ∧ r = { ret := 0, ops := [] }) ∨
    (¬ d.chip.Skips page ∧ d.Programs b page r.ops ∧ r.ret = if d.Reports o then - EIO else 0) := by
  rw [← wmtNandWritePage_skip_iff]
  obtain ⟨w, hw, hrun⟩ := bind_eq_some_iff.mp hrun
  unfold Driver.Programs
  rw [hw]
  rcases w with ⟨_ | _, erase, mode, eslc⟩
  case skip => exact .inl ⟨rfl, (Option.some.inj hrun).symm⟩
  case page q =>
    obtain ⟨ops, -, hrun⟩ := bind_eq_some_iff.mp hrun
    obtain ⟨⟨t, after, hops⟩, hret⟩ := programPage_eq hrun
    exact .inr ⟨by simp, ⟨q, t, _, after, rfl, hops⟩, hret⟩

/-- A return value of `0` says that the data was transferred, a page program was issued and no
failure was reported, exactly if the page is not skipped, and a transfer that fails comes with a
failure that is looked at. -/
theorem returnsZero_imp_stored_iff {d : Driver} {o : Outcome} {b : Buffers} {page : Nat}
    {r : WriteRun} (hrun : wmtNandWritePageRun d o b page = some r) :
    (r.ret = 0 →
      o.Transferred ∧ d.Programs b page r.ops ∧ d.programStatus o &&& nandStatusFail = 0) ↔
    ¬ d.chip.Skips page ∧ (o.Transferred ∨ d.Reports o) := by
  rcases wmtNandWritePageRun_cases hrun with ⟨hskip, rfl⟩ | ⟨hskip, hprog, hret⟩
  · constructor
    · -- no operation at all, so in particular no page program
      intro h
      obtain ⟨q, t, before, after, hq, -⟩ := (h rfl).2.1
      rw [(wmtNandWritePage_skip_iff _ _).mpr hskip] at hq
      cases hq
    · intro h
      exact absurd hskip h.1
  by_cases hrep : d.Reports o
  · rw [if_pos hrep] at hret
    constructor
    · intro _
      exact ⟨hskip, .inr hrep⟩
    · intro _ hzero
      rw [hret] at hzero
      exact absurd hzero (by decide)
  rw [if_neg hrep] at hret
  constructor
  · intro h
    exact ⟨hskip, .inl (h hret).1⟩
  · intro h _
    exact ⟨h.2.resolve_right hrep, hprog, Decidable.not_not.mp fun hf => hrep (.inl hf)⟩

/-- A Hynix chip with a first partition of one block of 256 pages, and no verification. -/
def smallDriver : Driver :=
  { tables := { rdmz := fun _ => 0, randTable := fun _ _ => 0 }
    mtd := probeRandomizer 0xADDE94DA 8192 640 256
    chip :=
      { id := 0xADDE94DA, curChip := true, physEraseShift := 21, pageShift := 13, blkcnt := 4096
        bbt := some fun _ => 0
        par1Ofs := 256, par2Ofs := 256, par3Ofs := 256, par4Ofs := 256
        wholeEslc := 0, probEnd := 1, eslcWrite := 0 }
    verifyWrite := false
    errstat := none }

def zeroBuffers : Buffers :=
  { buf := fun _ => 0, bufferRamdomizer := fun _ => 0, oobPoi := fun _ => 0, oobAddr := 0
    fifo := fun _ => 0 }

def goodOutcome : Outcome :=
  { dmaEn := true, transferReady := true, evtCode := 0xf, waitIdle := true, status := 0xe0
    verifyBuf := 0 }

theorem smallDriver_stored :
    ∃ r, wmtNandWritePageRun smallDriver goodOutcome zeroBuffers 0 = some r ∧ r.ret = 0 ∧
      smallDriver.Programs zeroBuffers 0 r.ops := by
  have hzero : (wmtNandWritePageRun smallDriver goodOutcome zeroBuffers 0).map WriteRun.ret
      = some 0 := by decide +kernel
  have hskip : ¬ smallDriver.chip.Skips 0 := by
    rw [← wmtNandWritePage_skip_iff]
    decide +kernel
  obtain ⟨r, hr, hret⟩ := map_eq_some_iff.mp hzero
  have hall := (returnsZero_imp_stored_iff hr).mpr ⟨hskip, .inl (by decide)⟩ hret
  exact ⟨r, hr, hret, hall.2.1⟩

/-- A page of the second half is skipped, and the DMA engine reports an underrun for one of the
first half. Both calls return `0`. -/
theorem smallDriver_zero_not_stored :
    wmtNandWritePageRun smallDriver goodOutcome zeroBuffers 128 = some { ret := 0, ops := [] } ∧
    (wmtNandWritePageRun smallDriver { goodOutcome with evtCode := 1 } zeroBuffers 0).map
      WriteRun.ret = some 0 ∧ ¬ Outcome.Transferred { goodOutcome with evtCode := 1 } := by
  refine ⟨?_, by decide +kernel, by decide⟩
  have hskip : smallDriver.chip.Skips 128 := by
    rw [← wmtNandWritePage_skip_iff]
    decide +kernel
  have hsome : (wmtNandWritePageRun smallDriver goodOutcome zeroBuffers 128).isSome := by
    decide +kernel
  obtain ⟨r, hr⟩ := isSome_iff_exists.mp hsome
  rcases wmtNandWritePageRun_cases hr with ⟨-, heq⟩ | ⟨hnot, -⟩
  · rw [hr, heq]
  · exact absurd hskip hnot

end Wm8850.Nand
