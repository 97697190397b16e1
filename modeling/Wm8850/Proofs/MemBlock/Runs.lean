import Wm8850.Proofs.MemBlock.ReleaseWalk
import Mathlib.Data.List.Find

/-! # What holds in every run of the driver

Every call keeps `Mbah.Wf` (`exec_wf`), and a user in each block apart from an `MBIO_UNMAP` or
`MBIO_FREE` on a mapping that is the only user of its block (`Op.KeepsUser`). -/

namespace Wm8850.MemBlock

open Lib List

/-! ### Every call keeps the invariant -/

variable {h : Mbah} {slab : Option Ptr} {cfg : Config} {s : State} {m : Mb}

/-! ### Getting and mapping -/

lemma getTarget_mem {addr : Nat} {tgid : Int} (hf : getTarget h addr tgid = some m) :
    m ∈ h.mbs := by
  unfold getTarget at hf
  split at hf
  · obtain ⟨u, -, hm⟩ := Option.bind_eq_some_iff.mp hf
    exact (findKey_some hm).1
  · exact mbFindMb_mem hf

section
variable (hw : h.Wf) (hfresh : FreshMbu h slab)
include hw hfresh

lemma addUser_wf {h' : Mbah} (hcases : h' = h ∨ ∃ m ∈ h.mbs, ∃ u : MbUser, slab = some u.ptr ∧
    u.mb = m.ptr ∧
      h' = h.updMb m.ptr (Mb.addUser u)) : h'.Wf ∧ (h.Held → h'.Held) := by
  rcases hcases with rfl | ⟨m, hm, u, hslab, hu, rfl⟩
  · exact ⟨hw, id⟩
  · exact ⟨hw.addUser hm hu (hfresh u.ptr hslab), hw.addUser_held hm u⟩

lemma mbDoGet_wf (addr : Nat) (tgid : Int) (name : Option Name) :
    (mbDoGet h addr tgid name slab).1.Wf ∧ (h.Held → (mbDoGet h addr tgid name slab).1.Held) := by
  refine addUser_wf hw hfresh ?_
  unfold mbDoGet
  split
  · exact .inl rfl
  split
  · exact .inl rfl
  split
  · exact .inl rfl
  · next u =>
    split
    · exact .inl rfl
    · next m hm => exact .inr ⟨m, getTarget_mem hm, _, rfl, rfl, rfl⟩

lemma mbioGetByPhys_wf (value : Nat) (tgid : Int) (name : Name) :
    (mbioGetByPhys h value tgid name slab).1.Wf ∧
      (h.Held → (mbioGetByPhys h value tgid name slab).1.Held) := by
  refine addUser_wf hw hfresh ?_
  unfold mbioGetByPhys
  split
  · exact .inl rfl
  split
  · exact .inl rfl
  · split
    · exact .inl rfl
    · next m hm => exact .inr ⟨m, mbFindMb_mem hm, _, rfl, rfl, rfl⟩

lemma mbMmap_wf (tgid : Int) (name : Name) (vma : Vma) (remap : Bool) :
    (mbMmap cfg h tgid name vma slab remap).1.Wf ∧
      (h.Held → (mbMmap cfg h tgid name vma slab remap).1.Held) := by
  refine addUser_wf hw hfresh ?_
  unfold mbMmap
  dsimp only
  split
  · split
    · exact .inl rfl
    · split <;> exact .inl rfl
  split
  · exact .inl rfl
  split
  · exact .inl rfl
  next m hm =>
  split
  · exact .inl rfl
  · split
    · exact .inl rfl
    · exact .inr ⟨m, mbFindMb_mem hm, _, rfl, rfl, rfl⟩

end

/-! ### Unmapping -/

/-- The mapping that `MBIO_UNMAP` and `MBIO_FREE` look up is the only user of its block. -/
def OnlyMapping (h : Mbah) (value : Nat) (tgid : Int) : Prop :=
  ∃ m ∈ h.mbs, ∃ u, mbFindMbu h value tgid { user := true, mmap := true } = some u ∧
    m.mbuList = [u]

lemma findMapping_cases (hw : h.Wf) (value : Nat) (tgid : Int) :
    (mbFindMbu h value tgid { user := true, mmap := true } = none ∧ ¬ OnlyMapping h value tgid) ∨
    ∃ m ∈ h.mbs, ∃ u ∈ m.mbuList, m.creator ≠ some u.ptr ∧ h.mb? u.mb = some m ∧
      mbFindMbu h value tgid { user := true, mmap := true } = some u ∧
      (OnlyMapping h value tgid ↔ m.mbuList = [u]) := by
  cases hf : mbFindMbu h value tgid { user := true, mmap := true } with
  | none =>
    refine .inl ⟨rfl, ?_⟩
    rintro ⟨m, -, u, hu, -⟩
    rw [hf] at hu
    exact absurd hu (by simp)
  | some u =>
    obtain ⟨m, hm, hu, haddr⟩ := mbFindMbu_mem hf rfl rfl fun _ => rfl
    have hown := hw.linked.find_owner hm hu
    refine .inr ⟨m, hm, u, hu, hw.linked.ne_creator hm hu haddr, hown, rfl, ?_⟩
    constructor
    · rintro ⟨m', hm', u', hf', hlist⟩
      rw [hf] at hf'
      cases hf'
      have hown' := hw.linked.find_owner hm' (show u ∈ m'.mbuList by rw [hlist]; simp)
      rw [hown] at hown'
      cases hown'
      exact hlist
    · intro hlist
      exact ⟨m, hm, u, hf, hlist⟩

lemma unlinkMapping_held_iff (hw : h.Wf) (hm : m ∈ h.mbs) {u : MbUser} (hu : u ∈ m.mbuList)
    (hh : h.Held) :
    (h.updMb m.ptr (Mb.unlinkUser u.ptr id)).Held ↔ m.mbuList ≠ [u] := by
  have hlen := length_eraseKey_of_mem MbUser.ptr hu
  rw [Mbah.Held.perm (hw.linked.mbs_updMb_perm hm _)]
  constructor
  · intro hheld hlist
    refine hheld _ mem_cons_self ?_
    show eraseKey MbUser.ptr u.ptr m.mbuList = []
    rw [hlist] at hlen ⊢
    exact length_eq_zero_iff.mp (by simpa using hlen)
  intro hne b hb
  rcases mem_cons.mp hb with rfl | hb
  · intro hnil
    have hnil' : eraseKey MbUser.ptr u.ptr m.mbuList = [] := hnil
    rw [hnil'] at hlen
    obtain ⟨v, hv⟩ := length_eq_one_iff.mp hlen.symm
    rw [hv, mem_singleton] at hu
    exact hne (by rw [hv, hu])
  · exact hh b ((eraseKey_sublist Mb.ptr _ _).subset hb)

lemma mbioUnmap_wf (hw : h.Wf) (value : Nat) (tgid : Int) : (mbioUnmap h value tgid).1.Wf ∧
      (h.Held → ((mbioUnmap h value tgid).1.Held ↔ ¬ OnlyMapping h value tgid)) := by
  unfold mbioUnmap
  rcases findMapping_cases hw value tgid with ⟨hf, hno⟩ | ⟨m, hm, u, hu, hne, hown, hf, honly⟩
  · rw [hf]
    exact ⟨hw, fun hh => ⟨fun _ => hno, fun _ => hh⟩⟩
  rw [hf]
  simp only [hown]
  refine ⟨hw.unlinkUser hm hu (g := id) (.inr ⟨rfl, hne⟩), fun hh => ?_⟩
  rw [honly]
  exact unlinkMapping_held_iff hw hm hu hh

/-- `mb_do_free` does not touch a block without users: it only finds blocks through users. -/
theorem mem_mbDoFree_of_unused (hw : h.Wf) {b : Mb} (hb : b ∈ h.mbs) (hnil : b.mbuList = [])
    (addr : Nat) (tgid : Int) (name : Option Name) : b ∈ (mbDoFree h addr tgid name).1.mbs := by
  rcases mbDoFree_drops hw addr tgid name with heq | ⟨m, hm, u, hu, -, -, heq⟩
  · rw [heq]
    exact hb
  rw [heq]
  refine mem_dropUser_of_ne hw hm hu (.inl rfl) hb fun hptr => ?_
  have h1 := findKey_of_mem hw.linked.blocks.ptrs hb
  rw [hptr, findKey_of_mem hw.linked.blocks.ptrs hm] at h1
  cases h1
  rw [hnil] at hu
  exact absurd hu not_mem_nil

lemma mbioFree_wf (hw : h.Wf) (value : Nat) (tgid : Int) (name : Name) :
    (mbioFree h value tgid name).1.Wf ∧
      (h.Held → ((mbioFree h value tgid name).1.Held ↔ ¬ OnlyMapping h value tgid)) := by
  unfold mbioFree
  rcases findMapping_cases hw value tgid with ⟨hf, hno⟩ | ⟨m, hm, u, hu, hne, hown, hf, honly⟩
  · rw [hf]
    have hfree := mbDoFree_wf hw value tgid (some name)
    exact ⟨hfree.1, fun hh => ⟨fun _ => hno, fun _ => hfree.2 hh⟩⟩
  rw [hf]
  simp only [hown]
  have hw' := hw.unlinkUser hm hu (g := id) (.inr ⟨rfl, hne⟩)
  have hfree := mbDoFree_wf hw' m.phys tgid (some name)
  refine ⟨hfree.1, fun hh => ?_⟩
  have hiff := unlinkMapping_held_iff hw hm hu hh
  rw [honly]
  constructor
  · -- The block without users survives `mb_do_free`.
    intro hheld hlist
    have hmem := (hw.linked.mbs_updMb_perm hm (Mb.unlinkUser u.ptr id)).mem_iff.mpr mem_cons_self
    have hnil : (Mb.unlinkUser u.ptr id m).mbuList = [] := by
      show eraseKey MbUser.ptr u.ptr m.mbuList = []
      have hlen := length_eraseKey_of_mem MbUser.ptr hu
      rw [hlist] at hlen ⊢
      exact length_eq_zero_iff.mp (by simpa using hlen)
    exact hheld _ (mem_mbDoFree_of_unused hw' hmem hnil m.phys tgid (some name)) hnil
  · intro hlist
    exact hfree.2 (hiff.mpr hlist)

/-! ### All calls -/

/-- A call that leaves a user in every block: not an `MBIO_UNMAP` or `MBIO_FREE` on a mapping
that is the only user of its block. -/
def Op.KeepsUser (s : State) : Op → Prop
  | .ioUnmap value tgid => ¬ OnlyMapping s.mbah value tgid
  | .ioFree value tgid _ => ¬ OnlyMapping s.mbah value tgid
  | _ => True

/-- Every call keeps the links, and keeps a user in every block exactly when it is not one of
the two exceptions. -/
theorem exec_wf (hw : s.mbah.Wf) {op : Op} (hs : op.Sound cfg s) : (exec cfg s op).mbah.Wf ∧
      (s.mbah.Held → ((exec cfg s op).mbah.Held ↔ op.KeepsUser s)) := by
  -- For all calls but two, the condition is trivial.
  have htriv : ∀ {h' : Mbah}, h'.Wf ∧ (s.mbah.Held → h'.Held) → h'.Wf ∧
      (s.mbah.Held → (h'.Held ↔ True)) :=
    fun h => ⟨h.1, fun hh => iff_true_intro (h.2 hh)⟩
  cases op with
  | alloc size tgid name out =>
    exact htriv (mbDoAlloc_wf hw size tgid name out hs.1 hs.2.1 hs.2.2)
  | free addr tgid name => exact htriv (mbDoFree_wf hw addr tgid name)
  | get addr tgid name slab => exact htriv (mbDoGet_wf hw hs addr tgid name)
  | put addr tgid name => exact htriv (mbDoPut_wf hw addr tgid name)
  | ioFree value tgid name => exact mbioFree_wf hw value tgid name
  | ioUnmap value tgid => exact mbioUnmap_wf hw value tgid
  | ioGetByPhys value tgid name slab => exact htriv (mbioGetByPhys_wf hw hs value tgid name)
  | ioPutByPhys value tgid => exact htriv (mbioPutByPhys_wf hw value tgid)
  | mmap tgid name vma slab remap => exact htriv (mbMmap_wf hw hs tgid name vma remap)
  | «open» tgid comm slab =>
    refine htriv ?_
    show (mbOpen s tgid comm slab).1.mbah.Wf ∧ (s.mbah.Held → (mbOpen s tgid comm slab).1.mbah.Held)
    unfold mbOpen
    split
    · exact ⟨hw, id⟩
    · split <;> exact ⟨hw, id⟩
  | release tgid => exact htriv (mbRelease_wf cfg s tgid hw)

lemma probed_wf (h : Probed cfg s) : s.mbah.Wf ∧ s.mbah.mbs = [] := by
  have hlay := probed_layout h
  obtain ⟨outs, hs, hrun⟩ := h
  obtain ⟨h', hloop, rfl⟩ := Option.map_eq_some_iff.mp hrun
  have hnoMb := (probeLoop_fresh outs Mbah.fresh_empty hs hloop).noMb
  have hmbs : (mbUpdateMbah h').mbs = [] := by
    rw [eq_nil_iff_forall_not_mem]
    intro m hm
    obtain ⟨a, ha, hma⟩ := mem_flatMap.mp hm
    rw [hnoMb a ha] at hma
    exact absurd hma not_mem_nil
  refine ⟨⟨hlay, ?_, fun a ha m hm => ?_⟩, hmbs⟩
  · rw [hmbs]
    exact ⟨by simp, by simp, by simp⟩
  · rw [hnoMb a ha] at hm
    exact absurd hm not_mem_nil

lemma reachable_wf (h : Reachable cfg s) : s.mbah.Wf := by
  refine Reach.invariant (fun s => s.mbah.Wf) (fun s hp => (probed_wf hp).1) ?_ h
  intro op s t hw hstep
  obtain ⟨hs, rfl⟩ := hstep
  exact (exec_wf hw hs).1

/-! ### The bookkeeping, in physical addresses -/

variable {a : Mba} {cfg : Config} {h : Mbah}

lemma Mba.Layout.mem_addr (h : a.Layout) {m : Mb} (hm : m ∈ a.mbList) :
    m.phys = m.pfnStart * pageSize ∧ m.phys + m.size = m.pfnEnd * pageSize := by
  obtain ⟨hphys, hsize, -⟩ := h.placed m hm
  have hb := h.packed.mem_bounds hm
  rw [hphys, hsize, ← add_mul]
  exact ⟨rfl, by congr 1; omega⟩

lemma Mba.Layout.pairwise_addr (h : a.Layout) :
    a.mbList.Pairwise fun x y => x.phys + x.size ≤ y.phys := by
  refine h.packed.pairwise.imp_of_mem fun {x y} hx hy hxy => ?_
  rw [(h.mem_addr hx).2, (h.mem_addr hy).1]
  exact Nat.mul_le_mul_right pageSize hxy

lemma Mba.Layout.map_pages (h : a.Layout) :
    (a.mbList.map fun m => m.size / pageSize) = a.mbList.map fun m => m.pfnEnd - m.pfnStart := by
  refine List.map_congr_left fun m hm => ?_
  rw [(h.placed m hm).2.1]
  exact Nat.mul_div_cancel _ (by decide)

/-- In every run and every area: the blocks are in address order and apart, each is a run of whole
pages inside the area, and `nr_mb`, `tot_free_pages` and `max_available_pages` are their number,
what they leave, and the largest gap. The totals of the host are the sum and the maximum over the
areas. -/
theorem reachable_bookkeeping {cfg : Config} {s : State} (h : Reachable cfg s) :
    (∀ a ∈ s.mbah.mbaList, (a.mbList.Pairwise fun x y => x.phys + x.size ≤ y.phys) ∧
      (∀ m ∈ a.mbList, m.phys % pageSize = 0 ∧ m.size % pageSize = 0 ∧ 0 < m.size ∧
        a.phys ≤ m.phys ∧ m.phys + m.size ≤ a.phys + a.pages * pageSize) ∧
      a.nrMb = a.mbList.length ∧
      a.totFreePages + (a.mbList.map fun m => m.size / pageSize).sum = a.pages ∧
      a.maxAvailablePages * pageSize
        = maxHole Mb.phys (fun m => m.phys + m.size) a.phys (a.phys + a.pages * pageSize)
            a.mbList) ∧ s.mbah.totFreePages = (s.mbah.mbaList.map Mba.totFreePages).sum ∧
    s.mbah.maxAvailablePages = maxOf (s.mbah.mbaList.map Mba.maxAvailablePages) := by
  have hg := (reachable_wf h).layout
  refine ⟨fun a ha => ?_, hg.free, hg.max⟩
  have hlay := hg.areas.layout a ha
  have hend : a.phys + a.pages * pageSize = a.pfnEnd * pageSize := by
    rw [hlay.physEq, hlay.span, add_mul]
  refine ⟨hlay.pairwise_addr, fun m hm => ?_, hlay.nr, ?_, ?_⟩
  · obtain ⟨hphys, hstop⟩ := hlay.mem_addr hm
    have hb := hlay.packed.mem_bounds hm
    have hsize := (hlay.placed m hm).2.1
    refine ⟨?_, ?_, ?_, ?_, ?_⟩
    · rw [hphys]
      exact Nat.mul_mod_left _ _
    · rw [hsize]
      exact Nat.mul_mod_left _ _
    · rw [hsize]
      exact mul_pos (by omega) (by decide)
    · rw [hlay.physEq, hphys]
      exact Nat.mul_le_mul_right _ hb.1
    · rw [hstop, hend]
      exact Nat.mul_le_mul_right _ hb.2.2
  · rw [hlay.map_pages]
    exact hlay.free_add_used
  · rw [hend, hlay.physEq, maxHole_scale (fun m hm => (hlay.mem_addr hm).1)
      (fun m hm => (hlay.mem_addr hm).2), hlay.max]
    rfl

/-! ### A small machine -/

/-- A reserve of 256 KB from the kernel. -/
def smallConfig : Config :=
  { reserveFromIo := false, dynamicAllocate := false, mbTotalSize := 256, numPhyspages := 131072 }

def smallPages : PageOutcome :=
  { mba := some 1, checkRegion := true, requestMemRegion := true, virt := some 0xC0100000 }

/-- One area of 64 pages. -/
def smallProbed : State :=
  { mbah :=
      { nrMba := 1, totPages := 64, totStaticPages := 64, totFreePages := 64,
        maxAvailablePages := 64
        mbaList :=
          [{ ptr := 1, isStatic := true, tgid := 0, phys := 0x100000, virt := 0xC0100000,
             pages := 64, pfnStart := 256, pfnEnd := 320, nrMb := 0, totFreePages := 64,
             maxAvailablePages := 64, mbList := [] }] }
    mbtiList := [] }

lemma PageOutcome.sound_of_none {n : Nat} {out : PageOutcome}
    (hmba : out.mba = none) (hpg : mbAllocPages cfg out n = none) : out.Sound cfg h n := by
  refine ⟨?_, ?_, ?_, ?_, ?_⟩ <;> simp [hmba, hpg]

lemma probed_of_pages {out : PageOutcome} {virt phys n : Nat} {s : State}
    (hpg : mbAllocPages cfg out (probePages cfg Mbah.empty) = some (virt, phys, n))
    (haligned : phys % pageSize = 0) (hnonzero : phys ≠ 0)
    (hinside : phys + n * pageSize ≤ wordSize)
    (hrun : mbProbe cfg [out] = some s) : Probed cfg s := by
  refine ⟨[out], fun _ => ⟨⟨?_, ?_, ?_, ?_, ?_⟩, ?_⟩, hrun⟩
  · intro _ _ a ha
    simp [Mbah.empty] at ha
  · intro virt phys n h
    rw [hpg] at h
    cases h
    exact haligned
  · intro virt phys n h
    rw [hpg] at h
    cases h
    exact hnonzero
  · intro virt phys n h
    rw [hpg] at h
    cases h
    exact hinside
  · intro _ _ _ _ a ha
    simp [Mbah.empty] at ha
  · split <;> trivial

lemma probed_smallProbed : Probed smallConfig smallProbed := by
  have hpg : mbAllocPages smallConfig smallPages (probePages smallConfig Mbah.empty)
      = some (0xC0100000, 0x100000, 64) := by decide +kernel
  exact probed_of_pages hpg (by decide) (by decide) (by decide) (by decide +kernel)

/-- The kernel answers to an allocation on the small machine, where no area is ever added. -/
def smallOutcome (mbu mb : Ptr) : AllocOutcome :=
  { mbu := some mbu, mb := some mb
    page := { mba := none, checkRegion := false, requestMemRegion := false, virt := none } }

lemma smallOutcome_sound (h : Mbah) (mbu mb : Ptr) (n : Nat) :
    (smallOutcome mbu mb).page.Sound smallConfig h n := by
  refine PageOutcome.sound_of_none rfl ?_
  unfold mbAllocPages
  split
  · rfl
  · simp [smallOutcome]

/-- The task 7 allocates two pages. -/
def smallAlloc : Op := .alloc 8192 7 (some ['v']) (smallOutcome 20 10)

lemma smallAlloc_sound : smallAlloc.Sound smallConfig smallProbed := by
  refine ⟨?_, ?_, ?_⟩
  · intro p _ u hu
    simp [Mbah.mbus, Mbah.mbs, smallProbed] at hu
  · intro p _ m hm
    simp [Mbah.mbs, smallProbed] at hm
  · exact smallOutcome_sound _ _ _ _

lemma reachable_smallAlloc : Reachable smallConfig (exec smallConfig smallProbed smallAlloc) :=
  Reach.next smallAlloc (Reach.start probed_smallProbed) ⟨smallAlloc_sound, rfl⟩

lemma freshMbu_of_all {h : Mbah} {p : Ptr} (hall : h.mbus.all (fun u => u.ptr != p) = true) :
    FreshMbu h (some p) := by
  intro q hq u hu
  cases hq
  simpa using List.all_eq_true.mp hall u hu

def smallForeignMmap : Op :=
  .mmap 8 ['w'] { vmStart := 0x50000000, vmEnd := 0x50002000, vmPgoff := 0x100 } (some 21) true

/-- The state after the first task allocated a block and the second mapped it. -/
def smallShared : State := [smallAlloc, smallForeignMmap].foldl (exec smallConfig) smallProbed

lemma smallForeignMmap_sound :
    smallForeignMmap.Sound smallConfig (exec smallConfig smallProbed smallAlloc) :=
  freshMbu_of_all (by decide +kernel)

lemma reachable_smallShared : Reachable smallConfig smallShared :=
  Reach.next smallForeignMmap reachable_smallAlloc ⟨smallForeignMmap_sound, rfl⟩

theorem smallAlloc_bookkeeping :
    ((exec smallConfig smallProbed smallAlloc).mbah.mbaList.map fun a =>
        (a.nrMb, a.totFreePages, a.maxAvailablePages)) = [(1, 62, 62)] ∧
    (exec smallConfig smallProbed smallAlloc).mbah.totFreePages
      = ((exec smallConfig smallProbed smallAlloc).mbah.mbaList.map Mba.totFreePages).sum :=
  ⟨by decide +kernel, (reachable_bookkeeping reachable_smallAlloc).2.1⟩

/-! ### Users over whole runs -/

/-- A call that meets `Op.KeepsUser`. -/
def KeepingStep (cfg : Config) (op : Op) (s t : State) : Prop :=
  Step cfg op s t ∧ op.KeepsUser s

lemma keeping_held {s : State} (h : Reach (Probed cfg) (KeepingStep cfg) s) :
    s.mbah.Wf ∧ s.mbah.Held := by
  refine Reach.invariant (fun s => s.mbah.Wf ∧ s.mbah.Held) (fun s hp => ?_) ?_ h
  · obtain ⟨hw, hnil⟩ := probed_wf hp
    refine ⟨hw, fun m hm => ?_⟩
    rw [hnil] at hm
    exact absurd hm List.not_mem_nil
  · intro op s t hinv hstep
    obtain ⟨⟨hs, rfl⟩, hkeep⟩ := hstep
    obtain ⟨hw, hiff⟩ := exec_wf hinv.1 hs
    exact ⟨hw, (hiff hinv.2).mpr hkeep⟩

/-- The count of a block is the number of its users, and in a run whose calls all satisfy
`Op.KeepsUser` every block has a user. The condition is sharp. -/
theorem count_eq_and_held (cfg : Config) :
    (∀ s, Reachable cfg s → ∀ m ∈ s.mbah.mbs, m.count = m.mbuList.length) ∧
    (∀ s, Reach (Probed cfg) (KeepingStep cfg) s → ∀ m ∈ s.mbah.mbs, m.mbuList ≠ []) ∧
    (∀ s op, Reachable cfg s → s.mbah.Held → op.Sound cfg s → ¬ op.KeepsUser s →
      ∃ m ∈ (exec cfg s op).mbah.mbs, m.mbuList = []) := by
  refine ⟨fun s h m hm => ?_, fun s h => (keeping_held h).2, fun s op h hh hs hno => ?_⟩
  · exact ((reachable_wf h).linked.blocks.ok m hm).count
  · have hiff := (exec_wf (reachable_wf h) hs).2 hh
    by_contra hnone
    exact hno (hiff.mp fun m hm hnil => hnone ⟨m, hm, hnil⟩)

/-- A block that one task allocated and another one mapped has two users. -/
theorem smallShared_held :
    (smallShared.mbah.mbs.map fun m => m.mbuList.map MbUser.tgid) = [[7, 8]] ∧
    ∀ m ∈ smallShared.mbah.mbs, m.mbuList ≠ [] := by
  refine ⟨by decide +kernel, (count_eq_and_held smallConfig).2.1 _ ?_⟩
  have halloc : Reach (Probed smallConfig) (KeepingStep smallConfig) _ :=
    Reach.next smallAlloc (Reach.start probed_smallProbed) ⟨⟨smallAlloc_sound, rfl⟩, trivial⟩
  exact Reach.next smallForeignMmap halloc ⟨⟨smallForeignMmap_sound, rfl⟩, trivial⟩

def smallMmap : Op :=
  .mmap 7 ['v'] { vmStart := 0x40000000, vmEnd := 0x40002000, vmPgoff := 0x100 } (some 21) true

def smallFree : Op := .ioFree 0x100000 7 ['v']

def smallUnmap : Op := .ioUnmap 0x40000000 7

def smallLeak : State :=
  [smallAlloc, smallMmap, smallFree, smallUnmap].foldl (exec smallConfig) smallProbed

/-- Allocate, map, free, unmap: the block is still linked, and has no user. -/
theorem smallUnmap_unused : Reachable smallConfig smallLeak ∧ ∃ m ∈ smallLeak.mbah.mbs,
    m.mbuList = [] := by
  refine ⟨?_, by decide +kernel⟩
  refine Reach.next smallUnmap (Reach.next smallFree (Reach.next smallMmap reachable_smallAlloc
    ⟨?_, rfl⟩) ⟨trivial, rfl⟩) ⟨trivial, rfl⟩
  exact freshMbu_of_all (by decide +kernel)

/-! ### Closing the device -/

/-- Closing the last file of a task, block by block. A block without users of the task is
untouched. -/
theorem mbRelease_mbs (cfg : Config) {s : State} {tgid : Int} {mbti : MbTaskInfo} (hw : s.mbah.Wf)
    (hopen : findKey MbTaskInfo.tgid tgid s.mbtiList = some mbti) (hlast : mbti.count = 1) :
    (mbRelease cfg s tgid).1.mbah.mbs.Perm (s.mbah.mbs.filterMap (Mb.afterRelease tgid)) ∧
      (∀ m ∈ s.mbah.mbs, (∀ u ∈ m.mbuList, u.tgid ≠ tgid) → m.afterRelease tgid = some m) ∧
      (mbRelease cfg s tgid).1.mbtiList = eraseKey MbTaskInfo.tgid tgid s.mbtiList ∧
      (mbRelease cfg s tgid).2 = 0 := by
  obtain ⟨-, hmbs⟩ := releaseLoop_spec cfg tgid s.mbah hw
  have hrun : mbRelease cfg s tgid = (⟨mbUpdateMbah (releaseLoop cfg tgid s.mbah),
      eraseKey MbTaskInfo.tgid tgid s.mbtiList⟩, 0) := by
    simp [mbRelease, hopen, hlast]
  rw [hrun]
  exact ⟨hmbs, fun m hm => Mb.afterRelease_of_forall (hw.linked.blocks.ok m hm).count, rfl, rfl⟩

def smallTasks : List MbTaskInfo := [⟨7, 1, ['v']⟩, ⟨8, 1, ['w']⟩]

/-- The task 7 closes its only file: its block stays for the task 8, with one user less. -/
theorem mbRelease_smallShared :
    ((mbRelease smallConfig ⟨smallShared.mbah, smallTasks⟩ 7).1.mbah.mbs.map fun m =>
        (m.count, m.mbuList.map MbUser.tgid)) = [(1, [8])] ∧
      (mbRelease smallConfig ⟨smallShared.mbah, smallTasks⟩ 7).1.mbtiList = [⟨8, 1, ['w']⟩] := by
  have hw : smallShared.mbah.Wf := reachable_wf reachable_smallShared
  have hopen : findKey MbTaskInfo.tgid 7 smallTasks = some ⟨7, 1, ['v']⟩ := rfl
  obtain ⟨hperm, -, htasks, -⟩ :=
    mbRelease_mbs smallConfig (s := ⟨smallShared.mbah, smallTasks⟩) hw hopen rfl
  refine ⟨?_, htasks⟩
  have hleft : ((smallShared.mbah.mbs.filterMap (Mb.afterRelease 7)).map fun m =>
      (m.count, m.mbuList.map MbUser.tgid)) = [(1, [8])] := by
    decide +kernel
  have hmap := hperm.map fun m => (m.count, m.mbuList.map MbUser.tgid)
  rw [hleft] at hmap
  exact hmap.eq_singleton

/-! ### Which address `mb_do_alloc` returns

A cached maximum covers `n` pages exactly when the area has a hole of `n` pages
(`Mba.Layout.le_max_iff`). -/

/-- Some hole has `n` pages. -/
def Mba.fits (n : Nat) (a : Mba) : Bool := a.holes.any fun g => decide (n ≤ width g)

variable {a : Mba} {n : Nat} {h : Mbah}

lemma Mba.Layout.le_max_iff (ha : a.Layout) (hn : 0 < n) : n ≤ a.maxAvailablePages ↔
    a.fits n = true := by
  rw [ha.max, Mba.fits, any_eq_true]
  constructor
  · intro hle
    obtain ⟨w, hw, hnw⟩ := exists_mem_of_le_maxOf hn hle
    obtain ⟨g, hg, rfl⟩ := mem_map.mp hw
    exact ⟨g, hg, decide_eq_true hnw⟩
  · intro hex
    obtain ⟨g, hg, hng⟩ := hex
    exact le_trans (of_decide_eq_true hng) (le_maxOf_of_mem (mem_map_of_mem hg))

lemma find?_max_eq (hg : h.Layout) (hn : 0 < n) :
    (h.mbaList.find? fun entry => decide (entry.maxAvailablePages ≥ n)) =
      h.mbaList.find? (Mba.fits n) := by
  refine find?_congr fun a ha => ?_
  have hiff := (hg.areas.layout a ha).le_max_iff hn
  by_cases hfit : a.fits n = true
  · rw [hfit]
    exact decide_eq_true (hiff.mpr hfit)
  · rw [Bool.eq_false_iff.mpr hfit]
    exact decide_eq_false fun hle => hfit (hiff.mp hle)

lemma mbAllocMb_ne_somethingWrong {p : Ptr} (hp : h.mba? p = some a)
    (ha : a.Layout) (size : Nat) (slab : Option Ptr) :
    mbAllocMb h p size slab ≠ .error .somethingWrong := by
  rcases Nat.eq_zero_or_pos (pageAlign size / pageSize) with hz | hpos
  · -- A request for no pages passes every comparison with the number of pages.
    unfold mbAllocMb
    simp only [hp, hz, Nat.not_lt_zero, if_false]
    split
    · simp
    · split <;> simp
  · rcases mbAllocMb_cases hp ha (pageAlign_eq size) hpos slab with
      ⟨-, heq⟩ | ⟨-, -, heq⟩ | ⟨-, _, _, _, _, _, _, _, heq⟩ <;> rw [heq] <;> simp

lemma Mba.Layout.find?_hole_le (ha : a.Layout) {g : Nat × Nat}
    (hf : a.holes.find? (fun g => decide (n ≤ width g)) = some g) :
    g ∈ a.holes ∧ n ≤ width g ∧ ∀ g' ∈ a.holes, n ≤ width g' → g.1 ≤ g'.1 := by
  obtain ⟨hfit, pre, post, hsplit, hpre⟩ := find?_eq_some_iff_append.mp hf
  refine ⟨mem_of_find?_eq_some hf, of_decide_eq_true hfit, fun g' hg' hn => ?_⟩
  have hsorted := ha.packed.holes_sorted.2
  rw [show Lib.holes Mb.pfnStart Mb.pfnEnd a.pfnStart a.pfnEnd a.mbList = a.holes from rfl,
    hsplit, pairwise_append, pairwise_cons] at hsorted
  rw [hsplit] at hg'
  rcases mem_append.mp hg' with hg' | hg'
  · -- No hole in front of the first one that fits does fit.
    have hno := hpre g' hg'
    simp only [Bool.not_eq_true', decide_eq_false_iff_not] at hno
    exact absurd hn hno
  · rcases mem_cons.mp hg' with rfl | hg'
    · exact le_refl _
    · exact hsorted.2.1.1 g' hg'

/-- Without dynamic areas, and with slab objects, `mb_do_alloc` succeeds exactly when some area
has a hole for the request, and places the block at the start of the first such hole. -/
theorem mbDoAlloc_eq {cfg : Config} (hw : h.Wf) (hdyn : cfg.dynamicAllocate = false)
    {size : Nat} (hpos : 0 < pageAlign size / pageSize) (tgid : Int) (name : Name)
    {out : AllocOutcome} {u q : Ptr} (hu : out.mbu = some u) (hq : out.mb = some q)
    (hmbu : FreshMbu h out.mbu) (hmb : FreshMb h out.mb) :
    (h.mbaList.find? (Mba.fits (pageAlign size / pageSize)) = none ∧
      mbDoAlloc cfg h size tgid (some name) out = (h, 0)) ∨
    ∃ a g m, h.mbaList.find? (Mba.fits (pageAlign size / pageSize)) = some a ∧
      a.holes.find? (fun g => decide (pageAlign size / pageSize ≤ width g)) = some g ∧
      (mbDoAlloc cfg h size tgid (some name) out).2 = g.1 * pageSize ∧ 0 < g.1 ∧
      (mbDoAlloc cfg h size tgid (some name) out).1.mbs.Perm (m :: h.mbs) ∧
      m.ptr = q ∧ m.phys = g.1 * pageSize ∧ m.size = pageAlign size := by
  have hfits := find?_max_eq hw.layout hpos
  cases hfind : h.mbaList.find? (Mba.fits (pageAlign size / pageSize)) with
  | none =>
    refine .inl ⟨rfl, ?_⟩
    rcases mbDoAlloc_cases cfg h size tgid (some name) out with
      heq | ⟨nm, u', h', a, -, -, -, -, ⟨-, hsome⟩ | ⟨hd, -⟩⟩
    · exact heq
    · rw [hfits, hfind] at hsome
      exact absurd hsome (by simp)
    · rw [hdyn] at hd
      exact absurd hd (by simp)
  | some a =>
    refine .inr ?_
    have hmem := mem_of_find?_eq_some hfind
    have ha := hw.layout.areas.layout a hmem
    have hle := (ha.le_max_iff hpos).mpr (find?_some hfind)
    have hp := findKey_of_mem hw.layout.areas.ptrs hmem
    -- The cached maximum of the host covers the one of the area.
    have hhost : ¬ pageAlign size / pageSize > h.maxAvailablePages := by
      have := le_maxOf_of_mem (mem_map_of_mem (f := Mba.maxAvailablePages) hmem)
      rw [← hw.layout.max] at this
      omega
    have hrun : mbDoAlloc cfg h size tgid (some name) out
        = placeMb h a.ptr (pageAlign size) tgid name u out.mb := by
      unfold mbDoAlloc
      simp only [if_neg (show ¬ pageAlign size / pageSize = 0 by omega), hu, if_neg hhost, hfits,
        hfind]
    have hmbu' : FreshMbu h (some u) := by
      rw [← hu]
      exact hmbu
    rcases placeMb_mbs hw hp hpos tgid name hmb hmbu' with
      ⟨hlt | hnone, -⟩ | ⟨q', zs, next, l, k, hq', hslot, -, hphys, hperm⟩
    · omega
    · rw [hq] at hnone
      exact absurd hnone (by simp)
    rw [hq] at hq'
    cases hq'
    obtain ⟨e, hhole⟩ := hslot.hole
    obtain ⟨hin, hwidth, -⟩ := ha.find?_hole_le hhole
    have hge := ha.packed.holes_sorted.1 (zs, e) hin
    have hpfn := ha.physPos
    have hzs : zs < a.pfnEnd := by
      have he := ha.packed.holes_le hin
      unfold width at hwidth
      omega
    have hnewMb := ha.newMb_phys q (pageAlign size / pageSize) hge hzs
    rw [hrun]
    refine ⟨a, (zs, e), _, rfl, hhole, ?_, ?_, hperm, rfl, hnewMb.1, (pageAlign_eq size).symm⟩
    · rw [hphys]
      exact hnewMb.1
    · omega

/-- `mb_do_alloc` returns an address exactly when the rounded size is not zero and some area has a
gap of that many pages. It is the start of the lowest such gap of the first area that has one. Every
block that was there stays. -/
theorem mbDoAlloc_first_fit {cfg : Config} {s : State} (h : Reachable cfg s)
    (hdyn : cfg.dynamicAllocate = false) (size : Nat) (tgid : Int) (name : Name)
    {out : AllocOutcome} {u q : Ptr} (hu : out.mbu = some u) (hq : out.mb = some q)
    (hmbu : FreshMbu s.mbah out.mbu) (hmb : FreshMb s.mbah out.mb) :
    let n := pageAlign size / pageSize
    let r := mbDoAlloc cfg s.mbah size tgid (some name) out
    (r.2 ≠ 0 ↔ pageAlign size ≠ 0 ∧ ∃ a ∈ s.mbah.mbaList, ∃ g ∈ a.holes, n ≤ width g) ∧
    (r.2 ≠ 0 → ∃ a g, s.mbah.mbaList.find? (Mba.fits n) = some a ∧ g ∈ a.holes ∧ n ≤ width g ∧
      (∀ g' ∈ a.holes, n ≤ width g' → g.1 ≤ g'.1) ∧ r.2 = g.1 * pageSize) ∧
    (∀ a ∈ s.mbah.mbaList, ∀ sz slab, mbAllocMb s.mbah a.ptr sz slab ≠ .error .somethingWrong) ∧
    (r.2 = 0 → r.1 = s.mbah) ∧
    (r.2 ≠ 0 → ∃ m, r.1.mbs.Perm (m :: s.mbah.mbs) ∧ m.ptr = q ∧ m.phys = r.2 ∧
      m.size = pageAlign size) := by
  have hw := reachable_wf h
  have hwrong : ∀ a ∈ s.mbah.mbaList, ∀ sz slab, mbAllocMb s.mbah a.ptr sz slab ≠
      .error .somethingWrong := by
    intro a ha
    exact mbAllocMb_ne_somethingWrong (findKey_of_mem hw.layout.areas.ptrs ha)
      (hw.layout.areas.layout a ha)
  intro n r
  by_cases hz : pageAlign size = 0
  · -- Nothing to allocate.
    have hr : r = (s.mbah, 0) := by
      show mbDoAlloc cfg s.mbah size tgid (some name) out = (s.mbah, 0)
      simp [mbDoAlloc, hz]
    rw [hr]
    exact ⟨by simp [hz], by simp, hwrong, fun _ => rfl, by simp⟩
  have hpos : 0 < pageAlign size / pageSize := by
    have := pageAlign_eq size
    refine pos_of_ne_zero fun h0 => hz ?_
    rw [h0] at this
    exact this
  rcases mbDoAlloc_eq hw hdyn hpos tgid name hu hq hmbu hmb with
    ⟨hnone, hr⟩ | ⟨a, g, m, hfind, hhole, hphys, hg, hperm, hptr, hmphys, hmsize⟩
  · have hr' : r = (s.mbah, 0) := hr
    rw [hr']
    refine ⟨⟨by simp, ?_⟩, by simp, hwrong, fun _ => rfl, by simp⟩
    rintro ⟨-, a, ha, g, hg, hle⟩
    have hno := find?_eq_none.mp hnone a ha
    exact absurd (any_eq_true.mpr ⟨g, hg, decide_eq_true hle⟩) hno
  have hmem := mem_of_find?_eq_some hfind
  obtain ⟨hin, hwidth, hlow⟩ := (hw.layout.areas.layout a hmem).find?_hole_le hhole
  have hr : r.2 = g.1 * pageSize := hphys
  have hne : r.2 ≠ 0 := by
    rw [hr]
    exact mul_ne_zero (by omega) (by decide)
  refine ⟨⟨fun _ => ⟨hz, a, hmem, g, hin, hwidth⟩, fun _ => hne⟩,
    fun _ => ⟨a, g, hfind, hin, hwidth, hlow, hr⟩, hwrong, fun h0 => absurd h0 hne,
    fun _ => ⟨m, hperm, hptr, ?_, hmsize⟩⟩
  rw [hr, hmphys]

theorem smallAlloc_next :
    let s := exec smallConfig smallProbed smallAlloc
    let r := mbDoAlloc smallConfig s.mbah 4096 8 (some ['w']) (smallOutcome 22 11)
    r.2 = 0x102000 ∧ ∃ m, r.1.mbs.Perm (m :: s.mbah.mbs) ∧ m.ptr = 11 ∧ m.phys = r.2 ∧
      m.size = pageAlign 4096 := by
  have hr : (mbDoAlloc smallConfig (exec smallConfig smallProbed smallAlloc).mbah 4096 8
      (some ['w']) (smallOutcome 22 11)).2 = 0x102000 := by decide +kernel
  refine ⟨hr, ?_⟩
  refine (mbDoAlloc_first_fit reachable_smallAlloc rfl 4096 8 ['w'] rfl rfl ?_ ?_).2.2.2.2 ?_
  · exact freshMbu_of_all (by decide +kernel)
  · intro p hp m hm
    cases hp
    have hall : (exec smallConfig smallProbed smallAlloc).mbah.mbs.all
        (fun m => m.ptr != 11) = true := by decide +kernel
    simpa using all_eq_true.mp hall m hm
  · decide

end Wm8850.MemBlock
