import Wm8850.Proofs.MemBlock.Layout

/-! # What allocation and freeing do to the layout

`Mbah.Layout` does not depend on the order of the areas (`Areas.perm`), so each list operation
brings the area it works on to the front. An area is added or dropped (`areas_cons`), replaced
(`Areas.replace`) or joined with a neighbour (`Areas.combind`). -/

namespace Wm8850.MemBlock

open Lib List

/-! ### Collections of areas -/

variable {l : List Mba} {a b : Mba} {h h' : Mbah} {cfg : Config} {out : PageOutcome}
    {pages virt phys n zs : Nat} {next : Option Ptr} {p : Ptr}

lemma Areas.perm {k : List Mba} (h : Areas l) (hp : l.Perm k) : Areas k where
  layout a ha := h.layout a (hp.mem_iff.mpr ha)
  ptrs := (hp.map Mba.ptr).nodup_iff.mp h.ptrs
  apart := ((hp.map Mba.span).pairwise_iff Apart.symm).mp h.apart

lemma areas_cons : Areas (a :: l) ↔ a.Layout ∧ (∀ b ∈ l, b.ptr ≠ a.ptr ∧ Apart a.span b.span) ∧
    Areas l := by
  constructor
  · intro h
    have hnd := nodup_cons.mp h.ptrs
    have hap := pairwise_cons.mp h.apart
    refine ⟨h.layout a (by simp), fun b hb => ⟨fun heq => ?_, ?_⟩, ?_⟩
    · exact hnd.1 (heq ▸ mem_map_of_mem hb)
    · exact hap.1 _ (mem_map_of_mem hb)
    · exact ⟨fun b hb => h.layout b (by simp [hb]), hnd.2, hap.2⟩
  intro h
  obtain ⟨ha, hb, hl⟩ := h
  refine ⟨fun b hmem => ?_, ?_, ?_⟩
  · rcases mem_cons.mp hmem with rfl | hmem
    · exact ha
    · exact hl.layout b hmem
  · rw [map_cons, nodup_cons]
    refine ⟨fun hm => ?_, hl.ptrs⟩
    obtain ⟨b, hmem, heq⟩ := mem_map.mp hm
    exact (hb b hmem).1 heq
  · rw [map_cons, pairwise_cons]
    refine ⟨fun p hp => ?_, hl.apart⟩
    obtain ⟨b, hmem, rfl⟩ := mem_map.mp hp
    exact (hb b hmem).2

lemma Areas.replace (h : Areas (a :: l)) (hb : b.Layout)
    (hptr : b.ptr = a.ptr) (hspan : b.span = a.span) : Areas (b :: l) := by
  rw [areas_cons] at h ⊢
  rw [hptr, hspan]
  exact ⟨hb, h.2⟩

lemma Mba.layout_of_empty (hphys : a.phys = a.pfnStart * pageSize)
    (hpos : 0 < a.pfnStart) (hpages : 0 < a.pages) (hspan : a.pfnEnd = a.pfnStart + a.pages)
    (hbound : a.pfnEnd * pageSize ≤ wordSize) (hl : a.mbList = []) (hnr : a.nrMb = 0)
    (hfree : a.totFreePages = a.pages) (hmax : a.maxAvailablePages = a.pages) : a.Layout := by
  have hholes : a.holes = [(a.pfnStart, a.pfnEnd)] := by
    rw [Mba.holes, hl]
    rfl
  have hwidth : width (a.pfnStart, a.pfnEnd) = a.pages := by
    show a.pfnEnd - a.pfnStart = a.pages
    omega
  refine ⟨hphys, hpos, hpages, hspan, hbound, ?_, ?_, ?_, ?_, ?_, ?_⟩
  · rw [hl]
    show a.pfnStart ≤ a.pfnEnd
    omega
  · simp [hl]
  · simp [hl]
  · rw [hl, hnr]
    rfl
  · rw [hholes, hfree]
    simp [hwidth]
  · rw [hholes, hmax]
    simp [hwidth]

lemma Areas.combind (h : Areas (a :: b :: l))
    (htouch : a.pfnEnd = b.pfnStart) (hea : a.mbList = []) (heb : b.mbList = []) :
    Areas (a.combind b :: l) := by
  obtain ⟨ha, hal, h'⟩ := areas_cons.mp h
  obtain ⟨hb, hbl, hl⟩ := areas_cons.mp h'
  have hfa := ha.free_add_used
  have hfb := hb.free_add_used
  have hma := ha.max
  have hmb := hb.max
  have hsa := ha.span
  have hsb := hb.span
  simp only [Mba.holes, hea, heb, Lib.holes, width, map_cons, map_nil, maxOf_cons,
    maxOf_nil, sum_nil] at hfa hfb hma hmb
  refine areas_cons.mpr ⟨?_, fun c hc => ⟨(hal c (by simp [hc])).1, ?_⟩, hl⟩
  · refine Mba.layout_of_empty ha.physEq ha.physPos ?_ ?_ hb.bound hea ?_ ?_ ?_
    · show 0 < a.pages + b.pages
      have := ha.pagesPos
      omega
    · show b.pfnEnd = a.pfnStart + (a.pages + b.pages)
      omega
    · show a.nrMb = 0
      rw [ha.nr, hea]
      rfl
    · show a.totFreePages + b.totFreePages = a.pages + b.pages
      omega
    · show a.maxAvailablePages + b.maxAvailablePages = a.pages + b.pages
      omega
  -- What is apart from both parts is apart from the whole.
  have hac : Apart a.span c.span := (hal c (by simp [hc])).2
  have hbc : Apart b.span c.span := (hbl c hc).2
  have hc := (hl.layout c hc).span
  have hcp := (hl.layout c ‹_›).pagesPos
  simp only [Apart, Mba.span, Mba.combind] at hac hbc ⊢
  omega

/-! ### Hosts -/

lemma Mbah.totals_iff (hl : h.mbaList.Perm l) :
    h.Totals ↔ Areas l ∧ h.nrMba = l.length ∧ h.totPages = (l.map Mba.pages).sum ∧
      h.totFreePages = (l.map Mba.totFreePages).sum := by
  have hlen := hl.length_eq
  have hpages := (hl.map Mba.pages).sum_eq
  have hfree := (hl.map Mba.totFreePages).sum_eq
  constructor
  · intro hg
    exact ⟨hg.areas.perm hl, hlen ▸ hg.nr, hpages ▸ hg.pages, hfree ▸ hg.free⟩
  · intro hg
    exact ⟨hg.1.perm hl.symm, hlen ▸ hg.2.1, hpages ▸ hg.2.2.1, hfree ▸ hg.2.2.2⟩

lemma Mbah.Totals.replace (hg : h.Totals)
    (hl : h.mbaList.Perm (a :: l)) (hl' : h'.mbaList.Perm (b :: l)) (hb : b.Layout)
    (hptr : b.ptr = a.ptr) (hspan : b.span = a.span) (hnr : h'.nrMba = h.nrMba)
    (htot : h'.totPages = h.totPages)
    (hfree : h'.totFreePages + a.totFreePages = h.totFreePages + b.totFreePages) : h'.Totals := by
  rw [Mbah.totals_iff hl] at hg
  rw [Mbah.totals_iff hl']
  obtain ⟨hareas, hn, hp, hf⟩ := hg
  have ha := (areas_cons.mp hareas).1
  have hpages : b.pages = a.pages := by
    have h1 := ha.span
    have h2 := hb.span
    have h3 : b.pfnStart = a.pfnStart := congrArg Prod.fst hspan
    have h4 : b.pfnEnd = a.pfnEnd := congrArg Prod.snd hspan
    omega
  refine ⟨hareas.replace hb hptr hspan, ?_, ?_, ?_⟩
  · rw [hnr, hn]
    rfl
  · rw [htot, hp, map_cons, map_cons, hpages]
  · rw [map_cons, sum_cons] at hf ⊢
    omega

lemma Mbah.Totals.drop (hg : h.Totals) (hl : h.mbaList.Perm (a :: l)) (hl' : h'.mbaList.Perm l)
    (hnr : h'.nrMba = wsub h.nrMba 1) (htot : h'.totPages = wsub h.totPages a.pages)
    (hfree : h'.totFreePages = wsub h.totFreePages a.totFreePages) : h'.Totals := by
  rw [Mbah.totals_iff hl] at hg
  rw [Mbah.totals_iff hl']
  obtain ⟨hareas, hn, hp, hf⟩ := hg
  have hlen := hareas.length_lt
  have hpagesLt := hareas.sum_pages_lt
  have hfreeLt := hareas.sum_free_lt
  simp only [length_cons, map_cons, sum_cons] at hn hp hf hlen hpagesLt hfreeLt
  refine ⟨(areas_cons.mp hareas).2.2, ?_, ?_, ?_⟩
  · rw [hnr, wsub_of_le] <;> omega
  · rw [htot, wsub_of_le] <;> omega
  · rw [hfree, wsub_of_le] <;> omega

lemma Mbah.Totals.linkMba (hg : h.Totals) (ha : a.Layout)
    (hnew : ∀ b ∈ h.mbaList, b.ptr ≠ a.ptr ∧ Apart a.span b.span) : (h.linkMba a).Totals := by
  have hl : (h.linkMba a).mbaList.Perm (a :: h.mbaList) := perm_append_singleton a h.mbaList
  rw [Mbah.totals_iff hl]
  refine ⟨areas_cons.mpr ⟨ha, hnew, hg.areas⟩, ?_, ?_, ?_⟩
  · show h.nrMba + 1 = h.mbaList.length + 1
    rw [hg.nr]
  · show h.totPages + a.pages = a.pages + (h.mbaList.map Mba.pages).sum
    rw [hg.pages]
    omega
  · show h.totFreePages + a.totFreePages = a.totFreePages + (h.mbaList.map Mba.totFreePages).sum
    rw [hg.free]
    omega

/-! ### `mb_alloc_mba` and `mb_free_mba` -/

lemma mbAllocMba_cases (cfg : Config) (out : PageOutcome) (pages : Nat) (h : Mbah) :
    mbAllocMba cfg out pages h = (h, none) ∨
      ∃ p virt phys n, out.mba = some p ∧ mbAllocPages cfg out pages = some (virt, phys, n) ∧
        mbAllocMba cfg out pages h = (h.linkMba (newMba p virt phys n), some p) := by
  unfold mbAllocMba
  by_cases hz : pages = 0
  · rw [if_pos hz]
    exact .inl rfl
  rw [if_neg hz]
  cases hmba : out.mba with
  | none => exact .inl rfl
  | some p =>
    cases hpg : mbAllocPages cfg out pages with
    | none => exact .inl rfl
    | some r =>
      obtain ⟨virt, phys, n⟩ := r
      exact .inr ⟨p, virt, phys, n, rfl, rfl, rfl⟩

lemma mbAllocPages_pos (h : mbAllocPages cfg out pages = some (virt, phys, n)) : 0 < n := by
  unfold mbAllocPages at h
  split at h
  · exact absurd h (by simp)
  next hpages =>
  split at h
  · -- The reserved variant returns the request.
    split at h
    · exact absurd h (by simp)
    · split at h
      · exact absurd h (by simp)
      · simp only [Option.map_eq_some_iff, Prod.mk.injEq] at h
        omega
  -- The kernel variant returns a power of two.
  dsimp only at h
  split at h
  · exact absurd h (by simp)
  · simp only [Option.map_eq_some_iff] at h
    obtain ⟨_, _, _, _, rfl⟩ := h
    exact Nat.two_pow_pos _

lemma newMba_layout (hs : out.Sound cfg h pages) {p : Nat} (hp : out.mba = some p)
    (hpg : mbAllocPages cfg out pages = some (virt, phys, n)) : (newMba p virt phys n).Layout ∧
      ∀ b ∈ h.mbaList, b.ptr ≠ (newMba p virt phys n).ptr ∧
        Apart (newMba p virt phys n).span b.span := by
  have hal := hs.aligned virt phys n hpg
  have hnz := hs.nonzero virt phys n hpg
  have hin := hs.inside virt phys n hpg
  have hpos := mbAllocPages_pos hpg
  unfold pageSize at hal hin
  constructor
  · refine Mba.layout_of_empty ?_ ?_ hpos rfl ?_ rfl rfl rfl rfl
    · show phys = phys / pageSize * pageSize
      unfold pageSize
      omega
    · show 0 < phys / pageSize
      unfold pageSize
      omega
    · show (phys / pageSize + n) * pageSize ≤ wordSize
      unfold pageSize
      omega
  · intro b hb
    refine ⟨hs.fresh p hp b hb, ?_⟩
    exact (hs.apart virt phys n hpg b hb).symm

lemma mbFreeMba_eq (hf : h.mba? a.ptr = some b) (hnr : a.nrMb = 0) (hst : a.isStatic = false) :
    (mbFreeMba h a).1 = { h with
          mbaList := eraseKey Mba.ptr a.ptr h.mbaList
          nrMba := wsub h.nrMba 1
          totFreePages := wsub h.totFreePages a.totFreePages
          totPages := wsub h.totPages a.pages
          maxAvailablePages := (eraseKey Mba.ptr a.ptr h.mbaList).foldl
            (fun m entry => max m entry.maxAvailablePages) 0 } := by
  simp [mbFreeMba, hnr, hf, hst]

lemma mbFreeMba_layout (hg : h.Layout)
    (hl : h.mbaList.Perm (a :: l)) (hl' : h'.mbaList.Perm (b :: l)) (hptr : b.ptr = a.ptr)
    (hpages : b.pages = a.pages) (hfree : b.totFreePages = a.totFreePages)
    (hnr' : h'.nrMba = h.nrMba) (htot' : h'.totPages = h.totPages)
    (hfree' : h'.totFreePages = h.totFreePages) (hnr : b.nrMb = 0) (hst : b.isStatic = false) :
    (mbFreeMba h' b).1.Layout := by
  have hnd : (h'.mbaList.map Mba.ptr).Nodup := by
    have := ((Mbah.totals_iff hl).mp hg.toTotals).1.ptrs
    rw [(hl'.map Mba.ptr).nodup_iff, map_cons, hptr]
    exact this
  have hfound : h'.mba? b.ptr = some b := findKey_of_mem hnd (hl'.mem_iff.mpr mem_cons_self)
  have herase : (eraseKey Mba.ptr b.ptr h'.mbaList).Perm l :=
    ((perm_cons_eraseKey hfound hnd).symm.trans hl').cons_inv
  rw [mbFreeMba_eq hfound hnr hst]
  refine ⟨hg.toTotals.drop hl herase ?_ ?_ ?_, ?_⟩
  · rw [hnr']
  · rw [htot', hpages]
  · rw [hfree', hfree]
  · rw [foldl_max_eq, zero_max]

/-! ### `mb_alloc_mb` -/

lemma pageAlign_eq (x : Nat) : pageAlign x = pageAlign x / pageSize * pageSize := by
  unfold pageAlign
  rw [Nat.mul_div_cancel _ (by decide)]

lemma pageAlign_pageAlign (x : Nat) : pageAlign (pageAlign x) = pageAlign x := by
  have hlt : wadd x (pageSize - 1) < wordSize := Nat.mod_lt _ (by decide)
  unfold pageAlign
  generalize wadd x (pageSize - 1) = w at hlt ⊢
  unfold wordSize at hlt
  rw [wadd_of_lt (by unfold pageSize wordSize; omega)]
  unfold pageSize
  omega

/-- Where `mb_alloc_mb` puts a block of `n` pages: at `zs`, the start of the first hole of
that width, which lies behind the blocks `l` and in front of the blocks `k`. -/
structure Mba.Slot (a : Mba) (n zs : Nat) (next : Option Ptr) (l k : List Mb) : Prop where
  split : a.mbList = l ++ k
  start : zs = lastStop Mb.pfnEnd a.pfnStart l
  room : zs + n ≤ firstStart Mb.pfnStart a.pfnEnd k
  hole : ∃ e, a.holes.find? (fun p => decide (n ≤ width p)) = some (zs, e)
  next : ∀ mb, insertBefore Mb.ptr next mb a.mbList = l ++ mb :: k

lemma Mba.Layout.exists_hole (ha : a.Layout) (hn : 0 < n) (hle : n ≤ a.maxAvailablePages) :
    a.holes.find? (fun p => decide (n ≤ width p)) ≠ none := by
  intro hnone
  rw [ha.max] at hle
  obtain ⟨w, hw, hnw⟩ := exists_mem_of_le_maxOf hn hle
  obtain ⟨p, hp, rfl⟩ := mem_map.mp hw
  have := find?_eq_none.mp hnone p hp
  exact this (decide_eq_true hnw)

/-- The search loop, and the test after it, find the slot. The two ways out of the loop are
the two cases of `fitSplit`. -/
theorem Mba.Layout.searchZone_slot (ha : a.Layout) (hn : 0 < n) (hle : n ≤ a.maxAvailablePages)
    {ze : Nat} (hs : searchZone n a.mbList a.pfnStart a.pfnStart none = (zs, ze, next)) :
    ∃ ze' next' l k, (if zs ≥ ze then (a.pfnEnd, none) else (ze, next)) = (ze', next') ∧
      n ≤ wsub ze' zs ∧ a.Slot n zs next' l k := by
  have hend := ha.pfnEnd_lt
  have hsearch := searchZone_eq (n := n) ha.packed hend (le_refl _) none
  have hhole := ha.exists_hole hn hle
  rw [hs] at hsearch
  cases hfit : fitSplit Mb.pfnStart Mb.pfnEnd n a.pfnStart a.mbList with
  | some r =>
    -- The loop was left at the block `x`.
    obtain ⟨l, x, k⟩ := r
    rw [hfit] at hsearch
    obtain ⟨hsplit, hroom, hfind⟩ := fitSplit_some a.pfnEnd hfit
    simp only [Prod.mk.injEq] at hsearch
    obtain ⟨hzs, hze, hnext⟩ := hsearch
    have hx := ha.packed.mem_bounds (show x ∈ a.mbList by rw [hsplit]; simp)
    have hpre : ∀ y ∈ l, y.ptr ≠ x.ptr := by
      have hnd := ha.ptrs
      rw [hsplit, map_append, nodup_append] at hnd
      intro y hy
      exact hnd.2.2 y.ptr (mem_map_of_mem hy) x.ptr (by simp)
    refine ⟨ze, next, l, x :: k, if_neg (by omega), ?_, ⟨hsplit, hzs, ?_, ?_, ?_⟩⟩
    · rw [wsub_of_le (by omega) (by omega)]
      omega
    · show zs + n ≤ x.pfnStart
      omega
    · exact ⟨x.pfnStart, by rw [hzs]; exact hfind⟩
    · intro mb
      rw [hnext, hsplit]
      exact insertBefore_split hpre
  | none =>
    -- The loop ran to its end, and only the tail zone is left.
    rw [hfit] at hsearch
    obtain ⟨hzs, hze⟩ := hsearch
    have hfind := fitSplit_none a.pfnEnd hfit
    simp only at hzs hze
    have htail : n ≤ a.pfnEnd - lastStop Mb.pfnEnd a.pfnStart a.mbList := by
      by_contra hno
      rw [if_neg hno] at hfind
      exact hhole hfind
    rw [if_pos htail] at hfind
    refine ⟨a.pfnEnd, none, a.mbList, [], if_pos (by omega), ?_, ⟨?_, hzs, ?_, ?_, ?_⟩⟩
    · rw [wsub_of_le (by omega) hend]
      omega
    · simp
    · show zs + n ≤ a.pfnEnd
      omega
    · exact ⟨a.pfnEnd, by rw [hzs]; exact hfind⟩
    · intro mb
      exact insertBefore_none mb a.mbList

/-- What `mb_alloc_mb` does in an area that is laid out: it refuses a size above the cached
maximum, and otherwise fills the first slot if the slab cache has an object. -/
theorem mbAllocMb_cases (hp : h.mba? p = some a)
    (ha : a.Layout) {size : Nat} (hsize : pageAlign size = n * pageSize) (hn : 0 < n)
    (slab : Option Ptr) :
    (a.maxAvailablePages < n ∧ mbAllocMb h p size slab = .error .noAvailableSpace) ∨
    (n ≤ a.maxAvailablePages ∧ slab = none ∧ mbAllocMb h p size slab = .error .outOfMemory) ∨
    (n ≤ a.maxAvailablePages ∧ ∃ q zs next l k, slab = some q ∧ a.Slot n zs next l k ∧
      mbAllocMb h p size slab = .ok (h.linkMb a next (a.newMb q zs (n * pageSize)),
        a.newMb q zs (n * pageSize))) := by
  have hpages : n * pageSize / pageSize = n := Nat.mul_div_cancel n (by decide)
  have hsz : size ≠ 0 := by
    intro hz
    subst hz
    have h0 : pageAlign 0 = 0 := by decide
    simp only [pageSize] at hsize
    omega
  unfold mbAllocMb
  simp only [hp, if_neg hsz, hsize, hpages]
  by_cases hmax : a.maxAvailablePages < n
  · exact .inl ⟨hmax, if_pos hmax⟩
  rw [if_neg hmax]
  refine .inr ?_
  have hle : n ≤ a.maxAvailablePages := by omega
  cases hs : searchZone n a.mbList a.pfnStart a.pfnStart none with
  | mk zs r =>
    obtain ⟨ze', next', l, k, hif, hw, hslot⟩ := ha.searchZone_slot hn hle hs
    simp only [hif, if_neg (show ¬ wsub ze' zs < n by omega)]
    cases slab with
    | none => exact .inl ⟨hle, rfl, rfl⟩
    | some q => exact .inr ⟨hle, q, zs, next', l, k, rfl, hslot, rfl⟩

lemma Mbah.Layout.linkMb (hg : h.Layout) (hp : h.mba? p = some a) (hn : 0 < n) {l k : List Mb}
    (hslot : a.Slot n zs next l k) {q : Ptr} (hfresh : ∀ m ∈ h.mbs, m.ptr ≠ q) :
    (h.linkMb a next (a.newMb q zs (n * pageSize))).Layout := by
  obtain ⟨hmem, rfl⟩ := findKey_some hp
  have hfresh' : ∀ m ∈ a.mbList, m.ptr ≠ q := fun m hm => hfresh m (mem_flatMap.mpr ⟨a, hmem, hm⟩)
  obtain ⟨hnle, hb, hbfree⟩ := (hg.areas.layout a hmem).linkMb hslot.split hn hfresh' hslot.start
    hslot.room (hslot.next _)
  have hdiv : (a.newMb q zs (n * pageSize)).size / pageSize = n := Nat.mul_div_cancel n (by decide)
  generalize a.newMb q zs (n * pageSize) = mb at *
  have hsum : h.totFreePages = a.totFreePages +
      ((eraseKey Mba.ptr a.ptr h.mbaList).map Mba.totFreePages).sum :=
    ((Mbah.totals_iff (perm_cons_eraseKey hp hg.areas.ptrs)).mp hg.toTotals).2.2.2
  have hlt := hg.areas.sum_free_lt
  rw [← hg.free] at hlt
  refine ⟨hg.toTotals.replace (perm_cons_eraseKey hp hg.areas.ptrs)
    (updateKey_perm hp hg.areas.ptrs) hb rfl rfl rfl rfl ?_, ?_⟩
  · show wsub h.totFreePages (mb.size / pageSize) + a.totFreePages = _
    rw [wsub_of_le (by omega) hlt]
    omega
  · show foldl _ 0 _ = _
    rw [foldl_max_eq]
    rfl

/-! ### `mb_free_mb` and `mb_update_mbah` -/

lemma mbFreeMb_cases (h : Mbah) (p : Ptr) : (mbFreeMb h p).1 = h ∨
    ∃ mb mba m, h.mb? p = some mb ∧ mb.count = 0 ∧ h.mba? mb.mba = some mba ∧
      findKey Mb.ptr p mba.mbList = some m ∧ (((mba.unlinkMb p).nrMb = 0 ∧ mba.isStatic = false ∧
          mbFreeMb h p = mbFreeMba (h.setMba (mba.unlinkMb p)) (mba.unlinkMb p)) ∨
        (mbFreeMb h p).1 = h.recountMba mba (mba.unlinkMb p).recount) := by
  unfold mbFreeMb
  cases hmb : h.mb? p with
  | none => exact .inl rfl
  | some mb =>
    by_cases hc : mb.count ≠ 0
    · exact .inl (by simp [if_pos hc])
    simp only [if_neg hc]
    cases hmba : h.mba? mb.mba with
    | none => exact .inl rfl
    | some mba =>
      cases hm : findKey Mb.ptr p mba.mbList with
      | none => exact .inl (by simp [hm])
      | some m =>
        refine .inr ⟨mb, mba, m, rfl, not_not.mp hc, hmba, hm, ?_⟩
        simp only [hm]
        by_cases hlast : (mba.unlinkMb p).nrMb = 0 ∧ (mba.unlinkMb p).isStatic = false
        · rw [if_pos hlast]
          exact .inl ⟨hlast.1, hlast.2, rfl⟩
        · rw [if_neg hlast]
          exact .inr rfl

lemma Mbah.Layout.recountMba (hg : h.Layout)
    (hp : h.mba? p = some a) (hb : b.Layout) (hptr : b.ptr = a.ptr) (hspan : b.span = a.span)
    (hmax : a.maxAvailablePages ≤ b.maxAvailablePages) : (h.recountMba a b).Layout := by
  obtain ⟨hmem, rfl⟩ := findKey_some hp
  have hl := perm_cons_eraseKey hp hg.areas.ptrs
  have hl' : (h.setMba b).mbaList.Perm (b :: eraseKey Mba.ptr a.ptr h.mbaList) := by
    rw [Mbah.setMba, hptr]
    exact updateKey_perm hp hg.areas.ptrs
  have hsum := ((Mbah.totals_iff hl).mp hg.toTotals).2.2.2
  have hlt := hg.areas.sum_free_lt
  rw [← hg.free] at hlt
  rw [map_cons, sum_cons] at hsum
  refine ⟨hg.toTotals.replace hl hl' hb hptr hspan rfl rfl ?_, ?_⟩
  · show wsub h.totFreePages a.totFreePages + b.totFreePages + a.totFreePages = _
    rw [wsub_of_le (by omega) hlt]
    omega
  show Max.max h.maxAvailablePages b.maxAvailablePages =
    maxOf ((h.setMba b).mbaList.map Mba.maxAvailablePages)
  rw [maxOf_perm (hl'.map Mba.maxAvailablePages), hg.max, maxOf_perm (hl.map Mba.maxAvailablePages)]
  simp only [map_cons, maxOf_cons]
  omega

lemma mbFreeMb_layout (hg : h.Layout) (p : Ptr) : (mbFreeMb h p).1.Layout := by
  rcases mbFreeMb_cases h p with heq | ⟨mb, a, m, -, -, hp, hm, hlast | hrecount⟩
  · rw [heq]
    exact hg
  · obtain ⟨hnr, hst, heq⟩ := hlast
    rw [heq]
    have hp' : h.mba? (a.unlinkMb p).ptr = some a := by
      rw [Mba.unlinkMb_ptr, (findKey_some hp).2]
      exact hp
    exact mbFreeMba_layout hg (perm_cons_eraseKey hp' hg.areas.ptrs)
      (updateKey_perm hp' hg.areas.ptrs) rfl rfl rfl rfl rfl rfl hnr hst
  · rw [hrecount]
    obtain ⟨hb, hmax⟩ := (hg.areas.layout a (findKey_some hp).1).unlinkMb hm
    exact hg.recountMba hp hb rfl rfl hmax

lemma mbUpdateMbah_layout (hg : h.Totals) : (mbUpdateMbah h).Layout := by
  have hfree : ∀ (l : List Mba) (f : Nat), (∀ a ∈ l, a.Layout) →
      l.foldl (fun free mba => free + mba.freeZones) f = f + (l.map Mba.totFreePages).sum := by
    intro l
    induction l with
    | nil =>
      intro f _
      rfl
    | cons a l ih =>
      intro f hl
      have ha := hl a (by simp)
      rw [foldl_cons, ih _ fun b hb => hl b (by simp [hb]), map_cons, sum_cons,
        Mba.freeZones_eq ha.packed ha.pfnEnd_lt, ← ha.free]
      omega
  have hmax : h.mbaList.map Mba.maxZone = h.mbaList.map Mba.maxAvailablePages :=
    map_congr_left fun a ha => by
      have hlay := hg.areas.layout a ha
      rw [Mba.maxZone_eq hlay.packed hlay.pfnEnd_lt, hlay.max]
  refine ⟨⟨hg.areas, hg.nr, hg.pages, ?_⟩, ?_⟩
  · show h.mbaList.foldl (fun free mba => free + mba.freeZones) 0 = _
    rw [hfree h.mbaList 0 hg.areas.layout, zero_add]
    rfl
  · show h.mbaList.foldl (fun m mba => max m mba.maxZone) 0 = _
    rw [foldl_max_eq, hmax]
    rfl

/-! ### Users do not matter -/

def Mb.place (m : Mb) : Mb := { m with count := 0, creator := none, mbuList := [] }

/-- An area without the users of its blocks and without its prefetch marker. -/
def Mba.shape (a : Mba) : Mba :=
  { a with isStatic := false, tgid := mbDefTgid, mbList := a.mbList.map Mb.place }

def Mbah.shape (h : Mbah) : Mbah :=
  { h with totStaticPages := 0, mbaList := h.mbaList.map Mba.shape }

lemma Mba.holes_shape (a : Mba) : a.shape.holes = a.holes :=
  holes_map Mb.place (fun _ => rfl) fun _ => rfl

lemma Mba.layout_shape (a : Mba) : a.shape.Layout ↔ a.Layout := by
  have hpacked : Packed Mb.pfnStart Mb.pfnEnd a.pfnStart a.pfnEnd (a.mbList.map Mb.place) ↔
      Packed Mb.pfnStart Mb.pfnEnd a.pfnStart a.pfnEnd a.mbList :=
    packed_map Mb.place (fun _ => rfl) fun _ => rfl
  have hptrs : a.shape.mbList.map Mb.ptr = a.mbList.map Mb.ptr := by
    show (a.mbList.map Mb.place).map Mb.ptr = a.mbList.map Mb.ptr
    rw [map_map]
    rfl
  have hlen : a.shape.mbList.length = a.mbList.length := length_map Mb.place
  constructor
  · intro h
    refine ⟨h.physEq, h.physPos, h.pagesPos, h.span, h.bound, hpacked.mp h.packed, ?_,
      hptrs ▸ h.ptrs, hlen ▸ h.nr, a.holes_shape ▸ h.free, a.holes_shape ▸ h.max⟩
    intro m hm
    exact h.placed m.place (mem_map_of_mem hm)
  intro h
  refine ⟨h.physEq, h.physPos, h.pagesPos, h.span, h.bound, hpacked.mpr h.packed, ?_,
    hptrs ▸ h.ptrs, hlen ▸ h.nr, a.holes_shape ▸ h.free, a.holes_shape ▸ h.max⟩
  intro m hm
  obtain ⟨m', hm', rfl⟩ := mem_map.mp hm
  exact h.placed m' hm'

lemma Mbah.layout_shape (h : Mbah) : h.shape.Layout ↔ h.Layout := by
  have hmap : ∀ {β : Type} (f : Mba → β), (∀ a, f a.shape = f a) →
      h.shape.mbaList.map f = h.mbaList.map f := by
    intro β f hf
    show (h.mbaList.map Mba.shape).map f = h.mbaList.map f
    rw [map_map]
    exact map_congr_left fun a _ => hf a
  have hptr := hmap Mba.ptr fun _ => rfl
  have hspan := hmap Mba.span fun _ => rfl
  have hpages := hmap Mba.pages fun _ => rfl
  have hfree := hmap Mba.totFreePages fun _ => rfl
  have hmax := hmap Mba.maxAvailablePages fun _ => rfl
  have hlen : h.shape.mbaList.length = h.mbaList.length := length_map Mba.shape
  constructor
  · intro hg
    refine ⟨⟨⟨?_, hptr ▸ hg.areas.ptrs, hspan ▸ hg.areas.apart⟩, hlen ▸ hg.nr, hpages ▸ hg.pages,
      hfree ▸ hg.free⟩, hmax ▸ hg.max⟩
    intro a ha
    exact a.layout_shape.mp (hg.areas.layout a.shape (mem_map_of_mem ha))
  intro hg
  refine ⟨⟨⟨?_, hptr ▸ hg.areas.ptrs, hspan ▸ hg.areas.apart⟩, hlen ▸ hg.nr, hpages ▸ hg.pages,
    hfree ▸ hg.free⟩, hmax ▸ hg.max⟩
  intro a ha
  obtain ⟨a', ha', rfl⟩ := mem_map.mp ha
  exact a'.layout_shape.mpr (hg.areas.layout a' ha')

lemma Mbah.Layout.of_shape (hg : h.Layout) (hs : h'.shape = h.shape) : h'.Layout := by
  rw [← Mbah.layout_shape, hs, Mbah.layout_shape]
  exact hg

lemma Mbah.shape_updMb (h : Mbah) (p : Ptr) {f : Mb → Mb} (hf : ∀ m, (f m).place = m.place) :
    (h.updMb p f).shape = h.shape := by
  have harea : ∀ a : Mba, (a.updMb p f).shape = a.shape := by
    simp [Mba.shape, Mba.updMb, map_updateKey_of_eq hf]
  simp [Mbah.shape, Mbah.updMb, harea]

/-! ### The state that `mb_probe` sets up

`MB_COMBIND_MBA` does not maintain the largest zone, and `mb_update_mbah` sets it at the end. -/

/-- The invariant of the loop of `mb_probe`: no block is allocated yet. -/
structure Mbah.Fresh (h : Mbah) : Prop extends h.Totals where
  noMb : ∀ a ∈ h.mbaList, a.mbList = []

variable {h : Mbah} {cfg : Config}

lemma Mbah.fresh_empty : Mbah.empty.Fresh where
  areas := ⟨fun a ha => by simp [Mbah.empty] at ha, nodup_nil, List.Pairwise.nil⟩
  nr := rfl
  pages := rfl
  free := rfl
  noMb a ha := by simp [Mbah.empty] at ha

lemma Mbah.Fresh.combindMba (hg : h.Fresh) {a b : Mba} (ha : a ∈ h.mbaList)
    (hb : b ∈ h.mbaList) (htouch : a.pfnEnd = b.pfnStart) : (combindMba h a b).Fresh := by
  have hnd := hg.areas.ptrs
  have hfa : findKey Mba.ptr a.ptr h.mbaList = some a := findKey_of_mem hnd ha
  have hne : b.ptr ≠ a.ptr := by
    intro heq
    have hfb : findKey Mba.ptr b.ptr h.mbaList = some b := findKey_of_mem hnd hb
    rw [heq, hfa] at hfb
    cases hfb
    have hspan := (hg.areas.layout a ha).span
    have hpos := (hg.areas.layout a ha).pagesPos
    omega
  -- The list is `a`, `b` and the rest.
  have hla := perm_cons_eraseKey hfa hnd
  have hnd' : ((eraseKey Mba.ptr a.ptr h.mbaList).map Mba.ptr).Nodup :=
    hnd.sublist ((eraseKey_sublist Mba.ptr a.ptr h.mbaList).map Mba.ptr)
  have hfb : findKey Mba.ptr b.ptr (eraseKey Mba.ptr a.ptr h.mbaList) = some b :=
    findKey_of_mem hnd' ((mem_eraseKey hnd).mpr ⟨hb, hne⟩)
  have hlb := perm_cons_eraseKey hfb hnd'
  generalize eraseKey Mba.ptr b.ptr (eraseKey Mba.ptr a.ptr h.mbaList) = rest at hlb
  have hl : h.mbaList.Perm (a :: b :: rest) := hla.trans (hlb.cons a)
  -- After the join it is the joined area and the rest.
  have hupd : (updateKey Mba.ptr a.ptr (fun _ => a.combind b) h.mbaList).Perm
      (b :: a.combind b :: rest) :=
    ((updateKey_perm hfa hnd).trans (hlb.cons _)).trans (List.Perm.swap _ _ _)
  have hareas : Areas (a :: b :: rest) := hg.areas.perm hl
  have hea := hg.noMb a ha
  have heb := hg.noMb b hb
  have hjoin : Areas (a.combind b :: rest) := hareas.combind htouch hea heb
  have hndU : ((updateKey Mba.ptr a.ptr (fun _ => a.combind b) h.mbaList).map Mba.ptr).Nodup := by
    rw [(hupd.map Mba.ptr).nodup_iff]
    exact ((List.Perm.swap b a rest).map Mba.ptr).nodup_iff.mp hareas.ptrs
  have hfU : findKey Mba.ptr b.ptr (updateKey Mba.ptr a.ptr (fun _ => a.combind b) h.mbaList)
      = some b := findKey_of_mem hndU (hupd.mem_iff.mpr mem_cons_self)
  have hl' : (MemBlock.combindMba h a b).mbaList.Perm (a.combind b :: rest) :=
    ((perm_cons_eraseKey hfU hndU).symm.trans hupd).cons_inv
  obtain ⟨-, hnr, hpages, hfree⟩ := (Mbah.totals_iff hl).mp hg.toTotals
  have hlen := hareas.length_lt
  simp only [length_cons, map_cons, sum_cons] at hnr hpages hfree hlen
  refine ⟨(Mbah.totals_iff hl').mpr ⟨hjoin, ?_, ?_, ?_⟩, ?_⟩
  · show wsub h.nrMba 1 = rest.length + 1
    rw [wsub_of_le] <;> omega
  · show h.totPages = a.pages + b.pages + (rest.map Mba.pages).sum
    omega
  · show h.totFreePages = a.totFreePages + b.totFreePages + (rest.map Mba.totFreePages).sum
    omega
  · intro c hc
    rcases mem_cons.mp (hl'.mem_iff.mp hc) with rfl | hc
    · exact hea
    · exact hg.noMb c (hl.mem_iff.mpr (by simp [hc]))

lemma Mbah.Fresh.setStatic (hg : h.Fresh) {p : Ptr} {a : Mba} (hp : h.mba? p = some a) (tot : Nat) :
    Mbah.Fresh { h.setMba { a with isStatic := true, tgid := mbDefTgid } with
      totStaticPages := tot } := by
  obtain ⟨hmem, rfl⟩ := findKey_some hp
  have hl := perm_cons_eraseKey hp hg.areas.ptrs
  have hl' := updateKey_perm (f := fun _ => { a with isStatic := true, tgid := mbDefTgid }) hp
    hg.areas.ptrs
  have hlay : Mba.Layout { a with isStatic := true, tgid := mbDefTgid } := by
    rw [← Mba.layout_shape]
    exact a.layout_shape.mpr (hg.areas.layout a hmem)
  refine ⟨hg.toTotals.replace hl hl' hlay rfl rfl rfl rfl rfl, ?_⟩
  intro c hc
  rcases mem_cons.mp (hl'.mem_iff.mp hc) with rfl | hc
  · exact hg.noMb a hmem
  · exact hg.noMb c (hl.mem_iff.mpr (by simp [hc]))

lemma bindMba_fresh (hg : h.Fresh) (p : Ptr) (bind : Option Ptr) : (bindMba h p bind).1.Fresh := by
  unfold bindMba
  cases hp : h.mba? p with
  | none => exact hg
  | some a =>
    have hst := hg.setStatic hp (h.totStaticPages + a.pages)
    have hptr := (findKey_some hp).2
    have hmem : { a with isStatic := true, tgid := mbDefTgid } ∈
        (h.setMba { a with isStatic := true, tgid := mbDefTgid }).mbaList := by
      have hf : h.mba? a.ptr = some a := hptr ▸ hp
      exact (updateKey_perm hf hg.areas.ptrs).mem_iff.mpr mem_cons_self
    dsimp only
    split
    · exact hst
    next b hb =>
    obtain ⟨c, -, hfind⟩ := Option.bind_eq_some_iff.mp hb
    have hbmem := (findKey_some hfind).1
    split
    · next htouch => exact hst.combindMba hmem hbmem htouch.symm
    · split
      · next htouch => exact hst.combindMba hbmem hmem htouch
      · exact hst

lemma probeLoop_fresh (outs : List PageOutcome) {h' : Mbah}
    {bind : Option Ptr} (hg : h.Fresh) (hs : ProbeSound cfg outs h bind)
    (hrun : probeLoop cfg outs h bind = some h') : h'.Fresh := by
  induction outs generalizing h bind with
  | nil =>
    unfold probeLoop at hrun
    split at hrun
    · exact absurd hrun (by simp)
    · cases hrun
      exact hg
  | cons out outs ih =>
    unfold probeLoop at hrun
    split at hrun
    · next hlt =>
      obtain ⟨hout, hrest⟩ := hs hlt
      dsimp only at hrun
      rcases mbAllocMba_cases cfg out (probePages cfg h) h with heq | hnew
      · rw [heq] at hrun hrest
        exact ih hg hrest hrun
      obtain ⟨p, virt, phys, n, hp, hpg, heq⟩ := hnew
      rw [heq] at hrun hrest
      obtain ⟨hlay, hap⟩ := newMba_layout hout hp hpg
      have hlink : (h.linkMba (newMba p virt phys n)).Fresh := by
        refine ⟨hg.toTotals.linkMba hlay hap, fun a ha => ?_⟩
        rcases mem_append.mp ha with ha | ha
        · exact hg.noMb a ha
        · rw [mem_singleton.mp ha]
          rfl
      exact ih (bindMba_fresh hlink p bind) hrest hrun
    · cases hrun
      exact hg

lemma probed_layout {s : State} (h : Probed cfg s) : s.mbah.Layout := by
  obtain ⟨outs, hs, hrun⟩ := h
  obtain ⟨h', hloop, rfl⟩ := Option.map_eq_some_iff.mp hrun
  exact mbUpdateMbah_layout (probeLoop_fresh outs Mbah.fresh_empty hs hloop).toTotals

end Wm8850.MemBlock
