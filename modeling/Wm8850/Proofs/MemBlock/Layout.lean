import Wm8850.Lib.Holes
import Wm8850.MemBlock.Release

/-! # How blocks lie in areas

`Mba.Layout`: the blocks are packed into the page frames of the area in address order, and `nr_mb`,
`tot_free_pages` and `max_available_pages` are the number of blocks, the width of all holes and of
the largest. `Areas` says it for a list with disjoint frames, `Mbah.Layout` adds the totals of the
host. -/

namespace Wm8850.MemBlock

open Lib List

/-- The free frames between the blocks. -/
def Mba.holes (a : Mba) : List (Nat × Nat) :=
  Lib.holes Mb.pfnStart Mb.pfnEnd a.pfnStart a.pfnEnd a.mbList

structure Mba.Layout (a : Mba) : Prop where
  physEq : a.phys = a.pfnStart * pageSize
  physPos : 0 < a.pfnStart
  pagesPos : 0 < a.pages
  span : a.pfnEnd = a.pfnStart + a.pages
  bound : a.pfnEnd * pageSize ≤ wordSize
  packed : Packed Mb.pfnStart Mb.pfnEnd a.pfnStart a.pfnEnd a.mbList
  placed : ∀ m ∈ a.mbList, m.phys = m.pfnStart * pageSize ∧
    m.size = (m.pfnEnd - m.pfnStart) * pageSize ∧ m.virt = wadd a.virt (m.phys - a.phys)
  ptrs : (a.mbList.map Mb.ptr).Nodup
  nr : a.nrMb = a.mbList.length
  free : a.totFreePages = (a.holes.map width).sum
  max : a.maxAvailablePages = maxOf (a.holes.map width)

structure Areas (l : List Mba) : Prop where
  layout : ∀ a ∈ l, a.Layout
  ptrs : (l.map Mba.ptr).Nodup
  apart : (l.map Mba.span).Pairwise Apart

/-- The layout of the host, apart from the largest zone. `mb_probe` joins areas and leaves
the largest zone to the `mb_update_mbah` at its end. -/
structure Mbah.Totals (h : Mbah) : Prop where
  areas : Areas h.mbaList
  nr : h.nrMba = h.mbaList.length
  pages : h.totPages = (h.mbaList.map Mba.pages).sum
  free : h.totFreePages = (h.mbaList.map Mba.totFreePages).sum

structure Mbah.Layout (h : Mbah) : Prop extends h.Totals where
  max : h.maxAvailablePages = maxOf (h.mbaList.map Mba.maxAvailablePages)

/-! ### Bounds -/

variable {a : Mba} {l : List Mba} {lo hi n zs : Nat}

lemma Mba.Layout.pfnEnd_lt (h : a.Layout) : a.pfnEnd < wordSize := by
  have := h.bound
  unfold pageSize at this
  unfold wordSize at this ⊢
  omega

lemma Mba.Layout.free_add_used (h : a.Layout) :
    a.totFreePages + (a.mbList.map fun m => m.pfnEnd - m.pfnStart).sum = a.pages := by
  have hsum := sum_holes_add_sum_items h.packed
  have hspan := h.span
  rw [h.free, Mba.holes]
  omega

lemma Areas.sum_pages_lt (h : Areas l) : (l.map Mba.pages).sum < wordSize := by
  have hle : ∀ p ∈ l.map Mba.span, p.2 ≤ 2 ^ 20 := by
    intro p hp
    obtain ⟨a, ha, rfl⟩ := mem_map.mp hp
    have := (h.layout a ha).bound
    simp only [pageSize, wordSize] at this
    show a.pfnEnd ≤ 2 ^ 20
    omega
  have hsum := sum_width_le_of_disjoint h.apart hle
  have heq : l.map Mba.pages = (l.map Mba.span).map width := by
    rw [map_map]
    refine map_congr_left fun a ha => ?_
    have := (h.layout a ha).span
    show a.pages = a.pfnEnd - a.pfnStart
    omega
  rw [heq]
  unfold wordSize
  omega

lemma Areas.sum_free_lt (h : Areas l) : (l.map Mba.totFreePages).sum < wordSize := by
  have hle : (l.map Mba.totFreePages).sum ≤ (l.map Mba.pages).sum := sum_le_sum fun a ha => by
      have := (h.layout a ha).free_add_used
      omega
  have := h.sum_pages_lt
  omega

lemma Areas.length_lt (h : Areas l) : l.length < wordSize := by
  have hle : (l.map Mba.pages).length ≤ (l.map Mba.pages).sum :=
    length_le_sum_of_one_le _ fun n hn => by
      obtain ⟨a, ha, rfl⟩ := mem_map.mp hn
      exact (h.layout a ha).pagesPos
  have := h.sum_pages_lt
  rw [length_map] at hle
  omega

/-! ### The walks -/

lemma zoneWalk_eq {l : List Mb} (hp : Packed Mb.pfnStart Mb.pfnEnd lo hi l) (hhi : hi < wordSize)
    (m f : Nat) :
    let r := zoneWalk l lo m f
    max (wsub hi r.1) r.2.1 = max m (maxHole Mb.pfnStart Mb.pfnEnd lo hi l) ∧
      r.2.2 + wsub hi r.1 = f + ((holes Mb.pfnStart Mb.pfnEnd lo hi l).map width).sum := by
  induction l generalizing lo m f with
  | nil =>
    have hlo : lo ≤ hi := hp
    simp only [zoneWalk, maxHole, Lib.holes, width, map_cons, map_nil, maxOf_cons,
      maxOf_nil, sum_cons, sum_nil, wsub_of_le hlo hhi]
    omega
  | cons x xs ih =>
    have hle := hp.2.2.le
    have hx1 := hp.1
    have hx2 := hp.2.1
    have hw : wsub x.pfnStart lo = x.pfnStart - lo := wsub_of_le hx1 (by omega)
    have hrec := ih hp.2.2 (max (x.pfnStart - lo) m) (f + (x.pfnStart - lo))
    simp only [zoneWalk, maxHole, Lib.holes, width, map_cons, maxOf_cons, sum_cons, hw] at hrec ⊢
    omega

section
variable (hp : Packed Mb.pfnStart Mb.pfnEnd a.pfnStart a.pfnEnd a.mbList)
  (hhi : a.pfnEnd < wordSize)
include hp hhi

lemma Mba.maxZone_eq : a.maxZone = maxOf (a.holes.map width) := by
  have h := (zoneWalk_eq hp hhi 0 0).1
  exact h

lemma Mba.freeZones_eq : a.freeZones = (a.holes.map width).sum := by
  have h := (zoneWalk_eq hp hhi 0 0).2
  rw [zero_add] at h
  exact h

end

/-- The search loop of `mb_alloc_mb` over packed blocks. If no block has enough room in front of it,
it ends with `ze` not above `zs`, which is what the test after the loop relies on. -/
theorem searchZone_eq {l : List Mb} (hp : Packed Mb.pfnStart Mb.pfnEnd lo hi l)
    (hhi : hi < wordSize) {ze : Nat} (hze : ze ≤ lo) (next : Option Ptr) :
    match fitSplit Mb.pfnStart Mb.pfnEnd n lo l with
    | some (pre, x, _) => searchZone n l lo ze next =
      (lastStop Mb.pfnEnd lo pre, x.pfnStart, some x.ptr)
    | none => (searchZone n l lo ze next).1 = lastStop Mb.pfnEnd lo l ∧
        (searchZone n l lo ze next).2.1 ≤ lastStop Mb.pfnEnd lo l := by
  induction l generalizing lo ze next with
  | nil => exact ⟨rfl, hze⟩
  | cons x xs ih =>
    have hle := hp.2.2.le
    have hx1 := hp.1
    have hx2 := hp.2.1
    have hw : wsub x.pfnStart lo = x.pfnStart - lo := wsub_of_le hx1 (by omega)
    by_cases hfit : n ≤ x.pfnStart - lo
    · simp [fitSplit, searchZone, hw, hfit, lastStop]
    have hrec := ih hp.2.2 (le_of_lt hx2) (some x.ptr)
    have hskip : ¬ wsub x.pfnStart lo ≥ n := by rw [hw]; exact hfit
    unfold fitSplit searchZone
    rw [if_neg hfit, if_neg hskip]
    cases hs : fitSplit Mb.pfnStart Mb.pfnEnd n x.pfnEnd xs with
    | none =>
      rw [hs] at hrec
      exact hrec
    | some r =>
      rw [hs] at hrec
      exact hrec

/-! ### Inserting and removing a block -/

lemma Mba.Layout.newMb_phys (ha : a.Layout) (q n : Nat) (hs : a.pfnStart ≤ zs)
    (he : zs < a.pfnEnd) :
    (a.newMb q zs (n * pageSize)).phys = zs * pageSize ∧
      (a.newMb q zs (n * pageSize)).virt = wadd a.virt (zs * pageSize - a.phys) := by
  have hb := ha.bound
  have hend := ha.pfnEnd_lt
  have hphys := ha.physEq
  have h1 : wsub zs a.pfnStart = zs - a.pfnStart := wsub_of_le hs (by omega)
  have h2 : wadd a.phys ((zs - a.pfnStart) * pageSize) = zs * pageSize := by
    rw [wadd_of_lt] <;> simp only [pageSize] at * <;> omega
  have h3 : wsub (zs * pageSize) a.phys = zs * pageSize - a.phys :=
    wsub_of_le (by simp only [pageSize] at *; omega) (by simp only [pageSize] at *; omega)
  simp [Mba.newMb, h1, h2, h3]

lemma Mba.Layout.linkMb (ha : a.Layout) {l k : List Mb} (hl : a.mbList = l ++ k)
    {q : Nat} (hn : 0 < n) (hfresh : ∀ m ∈ a.mbList, m.ptr ≠ q)
    (hs : zs = lastStop Mb.pfnEnd a.pfnStart l)
    (hroom : zs + n ≤ firstStart Mb.pfnStart a.pfnEnd k) {next : Option Ptr}
    (hnext : insertBefore Mb.ptr next (a.newMb q zs (n * pageSize)) a.mbList
      = l ++ a.newMb q zs (n * pageSize) :: k) :
    n ≤ a.totFreePages ∧ (a.linkMb next (a.newMb q zs (n * pageSize))).Layout ∧
      (a.linkMb next (a.newMb q zs (n * pageSize))).totFreePages = a.totFreePages - n := by
  have hdiv : n * pageSize / pageSize = n := Nat.mul_div_cancel n (by decide)
  have hstart : (a.newMb q zs (n * pageSize)).pfnStart = zs := rfl
  have hstop : (a.newMb q zs (n * pageSize)).pfnEnd = zs + n := by
    show zs + n * pageSize / pageSize = zs + n
    rw [hdiv]
  generalize hmb : a.newMb q zs (n * pageSize) = mb at *
  have hpacked : Packed Mb.pfnStart Mb.pfnEnd a.pfnStart a.pfnEnd (l ++ mb :: k) :=
    (hl ▸ ha.packed).insert (by omega) (by omega) (by omega)
  have hend := ha.pfnEnd_lt
  have hbounds := hpacked.mem_bounds (show mb ∈ l ++ mb :: k by simp)
  -- The block takes `n` pages from the holes.
  have hold := sum_holes_add_sum_items ha.packed
  have hnew := sum_holes_add_sum_items hpacked
  have hitems : ((l ++ mb :: k).map fun m => m.pfnEnd - m.pfnStart).sum
      = (a.mbList.map fun m => m.pfnEnd - m.pfnStart).sum + n := by
    rw [hl]
    simp only [map_append, map_cons, sum_append, sum_cons]
    omega
  have hfree := ha.free
  rw [Mba.holes] at hfree
  have hnle : n ≤ a.totFreePages := by omega
  have hwsub : wsub a.totFreePages (mb.size / pageSize) = a.totFreePages - n := by
    rw [← hmb, show (a.newMb q zs (n * pageSize)).size = n * pageSize from rfl, hdiv]
    exact wsub_of_le hnle (by omega)
  have hlist : (a.linkMb next mb).mbList = l ++ mb :: k := hnext
  have hholes : (a.linkMb next mb).holes
      = Lib.holes Mb.pfnStart Mb.pfnEnd a.pfnStart a.pfnEnd (l ++ mb :: k) := by
    rw [Mba.holes, hlist]
    rfl
  refine ⟨hnle, ⟨ha.physEq, ha.physPos, ha.pagesPos, ha.span, ha.bound, ?_, ?_, ?_, ?_, ?_, ?_⟩,
    hwsub⟩
  · rw [hlist]
    exact hpacked
  · rw [hlist]
    intro m hm
    rcases mem_append.mp hm with hm | hm
    · exact ha.placed m (by rw [hl]; simp [hm])
    rcases mem_cons.mp hm with rfl | hm
    · have hnewMb := ha.newMb_phys q n (show a.pfnStart ≤ zs by omega) (by omega)
      rw [hmb] at hnewMb
      refine ⟨by rw [hnewMb.1, hstart], ?_, by rw [hnewMb.2, hnewMb.1]; rfl⟩
      rw [hstop, ← hmb]
      show n * pageSize = (zs + n - zs) * pageSize
      congr 1
      omega
    · exact ha.placed m (by rw [hl]; simp [hm])
  · have hperm : ((l ++ mb :: k).map Mb.ptr).Perm (mb.ptr :: a.mbList.map Mb.ptr) := by
      rw [hl]
      exact perm_middle.map Mb.ptr
    rw [hlist, hperm.nodup_iff, nodup_cons]
    refine ⟨fun hm => ?_, ha.ptrs⟩
    obtain ⟨m, hm, heq⟩ := mem_map.mp hm
    exact hfresh m hm (by rw [heq, ← hmb]; rfl)
  · rw [hlist]
    show a.nrMb + 1 = (l ++ mb :: k).length
    rw [ha.nr, hl]
    simp only [length_append, length_cons]
    omega
  · rw [hholes]
    show wsub a.totFreePages (mb.size / pageSize) = _
    omega
  rw [hholes]
  have hp' : Packed Mb.pfnStart Mb.pfnEnd (a.linkMb next mb).pfnStart
      (a.linkMb next mb).pfnEnd (a.linkMb next mb).mbList := hlist ▸ hpacked
  rw [← hholes]
  exact Mba.maxZone_eq (a := a.linkMb next mb) hp' hend

lemma Mba.Layout.unlinkMb (ha : a.Layout) {p : Ptr} {m : Mb}
    (hm : findKey Mb.ptr p a.mbList = some m) : (a.unlinkMb p).recount.Layout ∧
      a.maxAvailablePages ≤ (a.unlinkMb p).recount.maxAvailablePages := by
  have hsub := eraseKey_sublist Mb.ptr p a.mbList
  have hpacked := ha.packed.sublist hsub
  have hend := ha.pfnEnd_lt
  have hnr : wsub a.nrMb 1 = (eraseKey Mb.ptr p a.mbList).length := by
    obtain ⟨hmem, rfl⟩ := findKey_some hm
    have hlen := length_eraseKey_of_mem Mb.ptr hmem
    have hle := ha.packed.length_le
    rw [ha.nr, wsub_of_le] <;> omega
  have hmax := Mba.maxZone_eq (a := a.unlinkMb p) hpacked hend
  refine ⟨⟨ha.physEq, ha.physPos, ha.pagesPos, ha.span, ha.bound, hpacked,
    fun m hm => ha.placed m (hsub.subset hm), ha.ptrs.sublist (hsub.map Mb.ptr), hnr,
    Mba.freeZones_eq (a := a.unlinkMb p) hpacked hend, hmax⟩, ?_⟩
  show a.maxAvailablePages ≤ (a.unlinkMb p).maxZone
  rw [hmax, ha.max]
  exact maxHole_le_of_sublist hsub ha.packed (le_refl _)

end Wm8850.MemBlock
