import Wm8850.Proofs.MemBlock.Users

/-! # The walk of `mb_release`

The walk never moves a block: the shape of the host stays (`Mbah.scanned_shape`). What it does to
the blocks it went through is `Mb.release` (`scanMbas_swept`), and freeing the block that stopped it
keeps what the loop will leave (`recycle_wf`). At the end that is `Mb.afterRelease` of every block
(`releaseLoop_spec`). -/

namespace Wm8850.MemBlock

open Lib List

variable {cfg : Config} {tgid : Int} {h : Mbah} {m : Mb} {r : Rescan}

/-! ### The shape of the host -/

lemma rescanMbu_place (tgid : Int) (mb : Mb) : (rescanMbu tgid mb).1.place = mb.place := by
  fun_induction rescanMbu tgid mb with
  | case1 mb _ => rfl
  | case2 mb mbu _ mb' _ ih => exact ih
  | case3 mb mbu _ mb' _ => rfl

lemma scanMbs_place (tgid : Int) (l : List Mb) :
    (scanMbs tgid l).1.map Mb.place = l.map Mb.place := by
  induction l with
  | nil => rfl
  | cons mb rest ih =>
    have hmb := rescanMbu_place tgid mb
    unfold scanMbs
    cases hr : rescanMbu tgid mb with
    | mk mb' flag =>
      rw [hr] at hmb
      cases flag with
      | true => simp [hmb]
      | false => simp [hmb, ih]

lemma scanMbas_shape (cfg : Config) (tgid : Int) (l : List Mba) (tot : Nat) :
    (scanMbas cfg tgid l tot).1.map Mba.shape = l.map Mba.shape := by
  induction l generalizing tot with
  | nil => rfl
  | cons a rest ih =>
    unfold scanMbas
    generalize (cfg.dynamicAllocate && decide (a.tgid = tgid)) = marked
    -- Clearing the prefetch marker keeps the shape.
    have hclear : ∀ l : List Mb, l.map Mb.place = a.mbList.map Mb.place →
        Mba.shape { a.clearMark marked with mbList := l } = a.shape := by
      intro l hl
      cases marked <;> simp [Mba.shape, Mba.clearMark, hl]
    dsimp only
    split
    · have hself := hclear (a.clearMark marked).mbList (by rw [Mba.clearMark_mbList])
      rw [map_cons, map_cons, hself]
    have hmbs := scanMbs_place tgid a.mbList
    rw [Mba.clearMark_mbList]
    cases hscan : scanMbs tgid a.mbList with
    | mk mbs found =>
      rw [hscan] at hmbs
      cases found with
      | some p => simp [hclear mbs hmbs]
      | none => simp [hclear mbs hmbs, ih]

lemma Mbah.scanned_shape (cfg : Config) (tgid : Int) (h : Mbah) :
    (h.scanned cfg tgid).shape = h.shape := by
  simp [Mbah.shape, Mbah.scanned, scanMbas_shape]

lemma recycle_layout (hg : h.Layout) (hr : h.rescan cfg tgid = some r) :
    ((h.scanned cfg tgid).recycle r).Layout := by
  have hg' : (h.scanned cfg tgid).Layout := hg.of_shape (h.scanned_shape cfg tgid)
  cases r with
  | mb p => exact mbFreeMb_layout hg' p
  | mba a =>
    obtain ⟨ha, hnr, hst⟩ := (scanMbas_work cfg tgid h.mbaList h.totStaticPages).2.2.2 a hr
    have hf : (h.scanned cfg tgid).mba? a.ptr = some a := findKey_of_mem hg'.areas.ptrs ha
    have hl := perm_cons_eraseKey hf hg'.areas.ptrs
    exact mbFreeMba_layout hg' hl hl rfl rfl rfl rfl rfl rfl hnr hst

/-! ### The users of the blocks -/

/-- The block without the users of the task. -/
def Mb.release (tgid : Int) (m : Mb) : Mb :=
  { m with
    mbuList := m.mbuList.filter (·.tgid ≠ tgid)
    count := (m.mbuList.filter (·.tgid ≠ tgid)).length
    creator := if m.creatorMbu.any (·.tgid = tgid) then none else m.creator }

/-- What `mb_release` is for, on one block: the users of the task go, and a block that thereby
loses its last user is freed. -/
def Mb.afterRelease (tgid : Int) (m : Mb) : Option Mb :=
  if m.mbuList ≠ [] ∧ (m.release tgid).mbuList = [] then none else some (m.release tgid)

lemma Mb.release_of_forall (hc : m.count = m.mbuList.length)
    (h : ∀ u ∈ m.mbuList, u.tgid ≠ tgid) : m.release tgid = m := by
  have hfilter : m.mbuList.filter (·.tgid ≠ tgid) = m.mbuList :=
    filter_eq_self.mpr (by simpa using h)
  have hcreator : m.creatorMbu.any (·.tgid = tgid) = false := by
    rw [Option.any_eq_false]
    intro u hu
    obtain ⟨c, -, hfind⟩ := Option.bind_eq_some_iff.mp hu
    simpa using h u (findKey_some hfind).1
  rw [Mb.release, hfilter, hcreator, ← hc]
  rfl

lemma Mb.afterRelease_of_forall (hc : m.count = m.mbuList.length)
    (h : ∀ u ∈ m.mbuList, u.tgid ≠ tgid) : m.afterRelease tgid = some m := by
  rw [Mb.afterRelease, Mb.release_of_forall hc h, if_neg fun hlost => hlost.1 hlost.2]

lemma Mb.afterRelease_release (tgid : Int) (m : Mb) :
    (m.release tgid).afterRelease tgid = some (m.release tgid) :=
  Mb.afterRelease_of_forall rfl fun u hu => by simpa using (mem_filter.mp hu).2

/-- A turn of the loop at `RESCAN_MBU` changes nothing of what is left at its end. -/
theorem Mb.release_delUser {u : MbUser} (hnd : (m.mbuList.map MbUser.ptr).Nodup)
    (hu : u ∈ m.mbuList) :
    Mb.release u.tgid { m.delUser u.ptr with
      creator := if m.creator = some u.ptr then none else m.creator } = m.release u.tgid := by
  have hself := findKey_of_mem hnd hu
  obtain ⟨pre, post, hl, hpre, hpost⟩ := exists_split hnd hu
  have herase : eraseKey MbUser.ptr u.ptr m.mbuList = pre ++ post := by
    rw [hl]
    exact eraseKey_split rfl hpre
  have hfilter : (pre ++ post).filter (·.tgid ≠ u.tgid) = m.mbuList.filter (·.tgid ≠ u.tgid) := by
    simp [hl]
  simp only [Mb.release, Mb.delUser, Mb.creatorMbu, herase, hfilter]
  by_cases hc : m.creator = some u.ptr
  · simp [hc, hself]
  have hfind : (m.creator.bind fun c => findKey MbUser.ptr c (pre ++ post)) =
      m.creator.bind fun c => findKey MbUser.ptr c m.mbuList := by
    refine Option.bind_congr fun c hm => ?_
    have hne : u.ptr ≠ c := fun h => hc (by rw [hm, h])
    simp [findKey, hl, hne]
  simp only [hc, if_false, hfind]
  rfl

/-- The loop at `RESCAN_MBU` at once. The induction follows the loop, which drops one user per
turn. -/
theorem rescanMbu_eq (tgid : Int) (m : Mb) (hc : m.count = m.mbuList.length)
    (hnd : (m.mbuList.map MbUser.ptr).Nodup) :
    rescanMbu tgid m = (m.release tgid, (m.afterRelease tgid).isNone) := by
  -- What one turn leaves of a block, and that it had a user.
  have hturn : ∀ {m : Mb} {u : MbUser}, m.count = m.mbuList.length →
      (m.mbuList.map MbUser.ptr).Nodup → m.mbuList.find? (fun v => decide (v.tgid = tgid)) =
        some u →
      m.count - 1 = ((eraseKey MbUser.ptr u.ptr m.mbuList).length : Int) ∧ m.mbuList ≠ [] ∧
      Mb.release tgid { m.delUser u.ptr with
        creator := if m.creator = some u.ptr then none else m.creator } = m.release tgid := by
    intro m u hc hnd hfind
    have hu := mem_of_find?_eq_some hfind
    have hlen := length_eraseKey_of_mem MbUser.ptr hu
    obtain rfl : u.tgid = tgid := by simpa using find?_some hfind
    exact ⟨by omega, ne_nil_of_mem hu, Mb.release_delUser hnd hu⟩
  fun_induction rescanMbu tgid m with
  | case1 m hfind =>
    have hother : ∀ u ∈ m.mbuList, u.tgid ≠ tgid := by simpa using hfind
    rw [Mb.afterRelease_of_forall hc hother, Mb.release_of_forall hc hother]
    rfl
  | case2 m u hfind m' hne ih =>
    obtain ⟨hc', hnil, hrel⟩ := hturn hc hnd hfind
    have hcount : m'.count = m'.mbuList.length := hc'
    have hrel' : m'.release tgid = m.release tgid := hrel
    have hnil' : m'.mbuList ≠ [] := by
      intro h
      exact hne (by rw [hcount, h]; rfl)
    rw [ih hc' (hnd.sublist ((eraseKey_sublist MbUser.ptr u.ptr m.mbuList).map _))]
    simp [Mb.afterRelease, hrel', hnil, hnil']
  | case3 m u hfind m' hz =>
    obtain ⟨hc', hnil, hrel⟩ := hturn hc hnd hfind
    have hcount : m'.count = m'.mbuList.length := hc'
    have hnil' : m'.mbuList = [] := length_eq_zero_iff.mp (by omega)
    have hrel' : m.release tgid = m' :=
      hrel.symm.trans (Mb.release_of_forall hc' (by rw [hnil']; simp))
    rw [Mb.afterRelease, hrel', if_pos ⟨hnil, hnil'⟩]
    rfl

/-- `front` are the blocks the walk of `mb_release` went through, `post` the rest, when it was
left for `r`. -/
def Swept (tgid : Int) (front post : List Mb) : Option Rescan → Prop
  | none => post = [] ∧ ∀ x ∈ front, (x.afterRelease tgid).isSome
  | some (.mba _) => ∀ x ∈ front, (x.afterRelease tgid).isSome
  | some (.mb p) => ∃ pre m, front = pre ++ [m] ∧ (∀ x ∈ pre, (x.afterRelease tgid).isSome) ∧
      m.afterRelease tgid = none ∧ m.ptr = p

lemma Swept.append {l front post : List Mb} {r : Option Rescan}
    (hl : ∀ x ∈ l, (x.afterRelease tgid).isSome) (h : Swept tgid front post r) :
    Swept tgid (l ++ front) post r := by
  match r, h with
  | none, ⟨hpost, hfront⟩ => exact ⟨hpost, forall_mem_append.mpr ⟨hl, hfront⟩⟩
  | some (.mba _), hfront => exact forall_mem_append.mpr ⟨hl, hfront⟩
  | some (.mb _), ⟨pre, m, hfront, hpre, hm⟩ =>
    exact ⟨l ++ pre, m, by rw [hfront, append_assoc], forall_mem_append.mpr ⟨hl, hpre⟩, hm⟩

lemma scanMbs_swept (tgid : Int) (l : List Mb) (hb : Blocks l) : ∃ front post, l = front ++ post ∧
      (scanMbs tgid l).1 = front.map (Mb.release tgid) ++ post ∧
      Swept tgid front post ((scanMbs tgid l).2.map .mb) := by
  induction l with
  | nil => exact ⟨[], [], rfl, rfl, rfl, by simp⟩
  | cons m rest ih =>
    have hmb := rescanMbu_eq tgid m (hb.ok m mem_cons_self).count (blocks_cons.mp hb).2.2.1
    unfold scanMbs
    cases hr : m.afterRelease tgid with
    | none =>
      -- The walk stops here, and the rest is as it was.
      rw [hr] at hmb
      simp only [hmb]
      exact ⟨[m], rest, rfl, rfl, [], m, rfl, by simp, hr, rfl⟩
    | some m' =>
      rw [hr] at hmb
      simp only [hmb]
      obtain ⟨front, post, hl, hl', hs⟩ := ih (hb.sublist (sublist_cons_self m rest))
      refine ⟨m :: front, post, by rw [hl]; rfl, by rw [hl']; rfl, ?_⟩
      exact Swept.append (l := [m]) (by simp [hr]) hs

lemma scanMbas_swept (cfg : Config) (tgid : Int) (l : List Mba) (tot : Nat)
    (hb : Blocks (l.flatMap Mba.mbList)) : ∃ front post, l.flatMap Mba.mbList = front ++ post ∧
      (scanMbas cfg tgid l tot).1.flatMap Mba.mbList = front.map (Mb.release tgid) ++ post ∧
      Swept tgid front post (scanMbas cfg tgid l tot).2.2 := by
  induction l generalizing tot with
  | nil => exact ⟨[], [], rfl, rfl, rfl, by simp⟩
  | cons a rest ih =>
    rw [flatMap_cons] at hb ⊢
    unfold scanMbas
    generalize (cfg.dynamicAllocate && decide (a.tgid = tgid)) = marked
    dsimp only
    split
    · -- The area is empty and goes back. Nothing was dropped.
      exact ⟨[], _, rfl, by rw [flatMap_cons, Mba.clearMark_mbList]; rfl, by simp [Swept]⟩
    obtain ⟨front, post, hl, hl', hs⟩ :=
      scanMbs_swept tgid a.mbList (hb.sublist (sublist_append_left _ _))
    rw [Mba.clearMark_mbList]
    cases hscan : scanMbs tgid a.mbList with
    | mk mbs found =>
      rw [hscan] at hl' hs
      dsimp only at hl'
      cases found with
      | some p =>
        refine ⟨front, post ++ rest.flatMap Mba.mbList, by rw [hl, append_assoc], ?_, hs⟩
        rw [flatMap_cons, hl', append_assoc]
      | none =>
        obtain ⟨rfl, hfront⟩ := hs
        obtain ⟨front', post, hk, hk', hs'⟩ :=
          ih (if marked = true then wsub tot a.pages else tot)
            (hb.sublist (sublist_append_right _ _))
        refine ⟨front ++ front', post, by rw [hl, hk]; simp, ?_, hs'.append hfront⟩
        rw [flatMap_cons, hl', hk']
        simp

lemma Mb.Ok.release (hok : m.Ok) (hnd : (m.mbuList.map MbUser.ptr).Nodup) (tgid : Int) :
    (m.release tgid).Ok := by
  refine ⟨fun u hu => hok.owner u (mem_filter.mp hu).1, fun c hc => ?_, rfl⟩
  by_cases hany : m.creatorMbu.any (·.tgid = tgid) = true
  · rw [Mb.release, if_pos hany] at hc
    exact absurd hc (by simp)
  rw [Mb.release, if_neg hany] at hc
  obtain ⟨u, hu, rfl, hwhole⟩ := hok.creator c hc
  have hother : u.tgid ≠ tgid := by
    rw [Mb.creatorMbu, show m.creator = some u.ptr from hc, Option.bind_some,
      findKey_of_mem hnd hu] at hany
    simpa using hany
  exact ⟨u, mem_filter.mpr ⟨hu, by simpa using hother⟩, rfl, hwhole⟩

lemma Blocks.release {front post : List Mb} (h : Blocks (front ++ post)) (tgid : Int) :
    Blocks (front.map (Mb.release tgid) ++ post) := by
  refine ⟨fun m hm => ?_, ?_, h.mbus.sublist (List.Sublist.map _ ?_)⟩
  · rcases mem_append.mp hm with hm | hm
    · obtain ⟨x, hx, rfl⟩ := mem_map.mp hm
      have hx' : x ∈ front ++ post := mem_append_left post hx
      have hsub : x.mbuList.Sublist ((front ++ post).flatMap Mb.mbuList) :=
        sublist_flatten_of_mem (mem_map_of_mem hx')
      exact (h.ok x hx').release (h.mbus.sublist (hsub.map _)) tgid
    · exact h.ok m (mem_append_right front hm)
  · have hptr := h.ptrs
    rw [map_append] at hptr ⊢
    rw [map_map]
    exact hptr
  rw [flatMap_append, flatMap_append, flatMap_map]
  have hfilter : (front.flatMap fun x => (x.release tgid).mbuList) =
      (front.flatMap Mb.mbuList).filter (·.tgid ≠ tgid) := by
    rw [filter_flatMap]
    rfl
  rw [hfilter]
  exact filter_sublist.append (List.Sublist.refl _)

lemma scanned_wf (hw : h.Wf) : (h.scanned cfg tgid).Wf := by
  obtain ⟨front, post, hl, hl', -⟩ :=
    scanMbas_swept cfg tgid h.mbaList h.totStaticPages hw.linked.blocks
  refine ⟨hw.layout.of_shape (h.scanned_shape cfg tgid), ?_, fun a' ha' m' hm' => ?_⟩
  · have hb : Blocks (front ++ post) := hl ▸ hw.linked.blocks
    show Blocks ((scanMbas cfg tgid h.mbaList h.totStaticPages).1.flatMap Mba.mbList)
    rw [hl']
    exact hb.release tgid
  -- The area and the block that were there before the walk.
  have hshape := scanMbas_shape cfg tgid h.mbaList h.totStaticPages
  obtain ⟨a, ha, has⟩ := mem_map.mp (hshape ▸ mem_map_of_mem (f := Mba.shape) ha')
  have hmbs : a.mbList.map Mb.place = a'.mbList.map Mb.place := congrArg Mba.mbList has
  obtain ⟨m, hm, hms⟩ := mem_map.mp (hmbs ▸ mem_map_of_mem (f := Mb.place) hm')
  calc m'.mba = m.mba := (congrArg Mb.mba hms).symm
    _ = a.ptr := hw.linked.area a ha m hm
    _ = a'.ptr := by simpa [Mba.shape] using congrArg Mba.ptr has

lemma Mb.afterRelease_isSome (h : (m.afterRelease tgid).isSome) :
    m.afterRelease tgid = some (m.release tgid) := by
  unfold Mb.afterRelease at h ⊢
  split at h
  · exact absurd h (by simp)
  · rw [if_neg (by assumption)]

lemma filterMap_release {l : List Mb} (hl : ∀ x ∈ l, (x.afterRelease tgid).isSome) :
    (l.map (Mb.release tgid)).filterMap (Mb.afterRelease tgid) =
      l.filterMap (Mb.afterRelease tgid) := by
  rw [filterMap_map]
  refine filterMap_congr fun x hx => ?_
  rw [Mb.afterRelease_isSome (hl x hx)]
  exact Mb.afterRelease_release tgid x

lemma mbFreeMba_mbs {a : Mba} (hnd : (h.mbaList.map Mba.ptr).Nodup) (ha : a ∈ h.mbaList)
    (hnil : a.mbList = []) : (mbFreeMba h a).1.mbs.Perm h.mbs := by
  have hold := Mbah.mbs_perm (perm_cons_eraseKey (findKey_of_mem hnd ha) hnd)
  rw [flatMap_cons, hnil] at hold
  unfold mbFreeMba
  split
  · exact List.Perm.refl _
  split
  · exact List.Perm.refl _
  · split
    · exact List.Perm.refl _
    · exact hold.symm

/-- Recycling what the walk was left for keeps what `mb_release` will leave of the blocks. -/
theorem recycle_wf (hw : h.Wf) (hr : h.rescan cfg tgid = some r) :
    ((h.scanned cfg tgid).recycle r).Wf ∧
      (((h.scanned cfg tgid).recycle r).mbs.filterMap (Mb.afterRelease tgid)).Perm
        (h.mbs.filterMap (Mb.afterRelease tgid)) := by
  have hlay := recycle_layout hw.layout hr
  have hw' : (h.scanned cfg tgid).Wf := scanned_wf hw
  obtain ⟨front, post, hl, hl', hs⟩ :=
    scanMbas_swept cfg tgid h.mbaList h.totStaticPages hw.linked.blocks
  have hmbs : h.mbs = front ++ post := hl
  have hmbs' : (h.scanned cfg tgid).mbs = front.map (Mb.release tgid) ++ post := hl'
  rw [show (scanMbas cfg tgid h.mbaList h.totStaticPages).2.2 = some r from hr] at hs
  cases r with
  | mb p =>
    obtain ⟨pre, m, rfl, hpre, hlost, rfl⟩ := hs
    refine ⟨⟨hlay, mbFreeMb_linked hw'.layout hw'.linked _⟩, ?_⟩
    have hm : m.release tgid ∈ (h.scanned cfg tgid).mbs := by simp [hmbs']
    have hzero : (m.release tgid).count = 0 := by
      unfold Mb.afterRelease at hlost
      split at hlost
      case isTrue hc => rw [(hw'.linked.blocks.ok _ hm).count, hc.2]; rfl
      case isFalse => exact absurd hlost (by simp)
    -- The blocks after the walk without the one that is freed.
    have hfind := perm_cons_eraseKey (findKey_of_mem hw'.linked.blocks.ptrs hm)
      hw'.linked.blocks.ptrs
    have herase : (eraseKey Mb.ptr m.ptr (h.scanned cfg tgid).mbs).Perm
        (pre.map (Mb.release tgid) ++ post) := by
      refine List.Perm.cons_inv (hfind.symm.trans ?_)
      rw [hmbs', map_append, append_assoc]
      exact perm_middle
    have hfree := (mbFreeMb_mbs hw'.layout hw'.linked hm hzero).trans herase
    refine (hfree.filterMap _).trans (List.Perm.of_eq ?_)
    rw [filterMap_append, filterMap_release hpre, hmbs]
    simp [hlost]
  | mba a =>
    obtain ⟨ha, hnr, -⟩ := (scanMbas_work cfg tgid h.mbaList h.totStaticPages).2.2.2 a hr
    have hnil : a.mbList = [] := by
      have hlen := (hw'.layout.areas.layout a ha).nr
      exact length_eq_zero_iff.mp (by omega)
    refine ⟨⟨hlay, mbFreeMba_linked hw'.linked a⟩, ?_⟩
    refine ((mbFreeMba_mbs hw'.layout.areas.ptrs ha hnil).filterMap _).trans (List.Perm.of_eq ?_)
    rw [hmbs', hmbs, filterMap_append, filterMap_append, filterMap_release hs]

lemma releaseLoop_spec (cfg : Config) (tgid : Int) (h : Mbah) (hw : h.Wf) :
    (releaseLoop cfg tgid h).Wf ∧
      (releaseLoop cfg tgid h).mbs.Perm (h.mbs.filterMap (Mb.afterRelease tgid)) := by
  fun_induction releaseLoop cfg tgid h with
  | case1 h hr =>
    refine ⟨scanned_wf hw, ?_⟩
    obtain ⟨front, post, hl, hl', hs⟩ :=
      scanMbas_swept cfg tgid h.mbaList h.totStaticPages hw.linked.blocks
    rw [show (scanMbas cfg tgid h.mbaList h.totStaticPages).2.2 = none from hr] at hs
    obtain ⟨rfl, hfront⟩ := hs
    rw [append_nil] at hl hl'
    have hmbs : (h.scanned cfg tgid).mbs = front.map (Mb.release tgid) := hl'
    rw [hmbs, show h.mbs = front from hl, ← filterMap_release hfront, filterMap_map]
    refine List.Perm.of_eq ?_
    rw [← filterMap_eq_map]
    exact filterMap_congr fun x _ => (Mb.afterRelease_release tgid x).symm
  | case2 h r hr ih =>
    obtain ⟨hw', hperm⟩ := recycle_wf hw hr
    obtain ⟨hwf, hmbs⟩ := ih hw'
    exact ⟨hwf, hmbs.trans hperm⟩

lemma mbRelease_wf (cfg : Config) (s : State) (tgid : Int) (hw : s.mbah.Wf) :
    (mbRelease cfg s tgid).1.mbah.Wf ∧ (s.mbah.Held → (mbRelease cfg s tgid).1.mbah.Held) := by
  unfold mbRelease
  split
  · exact ⟨hw, id⟩
  split
  · exact ⟨hw, id⟩
  obtain ⟨hwf, hmbs⟩ := releaseLoop_spec cfg tgid s.mbah hw
  refine ⟨⟨mbUpdateMbah_layout hwf.layout.toTotals, hwf.linked.blocks, hwf.linked.area⟩, ?_⟩
  intro hh m' hm' hnil
  obtain ⟨m, hm, hmm⟩ := mem_filterMap.mp (hmbs.mem_iff.mp hm')
  unfold Mb.afterRelease at hmm
  split at hmm
  case isTrue => exact absurd hmm (by simp)
  case isFalse hkept =>
    cases hmm
    exact hkept ⟨hh m hm, hnil⟩

end Wm8850.MemBlock
