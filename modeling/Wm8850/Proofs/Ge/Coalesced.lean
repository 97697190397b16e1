import Wm8850.Proofs.Ge.Ump

/-! # No two free buddies

The blocks of a pool settle in every run: the pass of `gmp_free` and `gmp_invalidate` settles them
(`mergeForward_spec`), and an allocation leaves right halves that are no buddies of one another. A
settled cut is determined by its used blocks (`Gmp.Laid.layout_eq`), so freeing what was just
allocated restores it. -/

namespace Wm8850.Ge

open Lib List

variable {g g' : Gmp} {i pa nr : Nat} {ds ds' : List Gmdesc}

/-- What a free must restore of a block. -/
def Gmdesc.layout (d : Gmdesc) : Nat × Nat × Bool := (d.pa, d.order, d.used)

lemma usedBlocks_cons_free {d : Gmdesc} (hd : d.used = false) (ds : List Gmdesc) :
    usedBlocks i (d :: ds) = usedBlocks (i + 2 ^ d.order) ds := filter_cons_of_neg (by simp [hd])

lemma head_of_usedBlocks {d d' : Gmdesc} (h : usedBlocks i (d' :: ds') = usedBlocks i (d :: ds))
    (hd : d.used = true) : d' = d := by
  have hmem : (i, d) ∈ usedBlocks i (d' :: ds') := by
    rw [h, usedBlocks_cons_used hd]
    exact mem_cons_self
  obtain ⟨cs, hcs⟩ := eq_cons_of_mem_place (mem_of_mem_usedBlocks hmem)
  exact (cons_eq_cons.mp hcs).1

lemma le_freeEnd_of_free {d : Gmdesc} (hd : d.used = false) (ds : List Gmdesc) :
    i + 2 ^ d.order ≤ freeEnd Gmdesc.order Gmdesc.free i (d :: ds) := by
  rw [freeEnd_cons, if_pos (by simp [Gmdesc.free, hd])]
  exact le_freeEnd Gmdesc.free _ ds

section
variable (hs : g.Sized) (hs' : g'.Sized) (hpa : g'.pa = g.pa) (hlen : g'.len = g.len)
include hs hs' hpa hlen

/-- Two settled cuts with the same used blocks are the same. A free block at the same place has
the same order in both: the largest that is possible there. -/
theorem Gmp.Laid.layout_eq (hl : g.Laid i ds) (hl' : g'.Laid i ds') (hset : SettledFrom i ds)
    (hset' : SettledFrom i ds') (hused : usedBlocks i ds' = usedBlocks i ds) :
    ds'.map Gmdesc.layout = ds.map Gmdesc.layout := by
  have hnr : g'.nr = g.nr := by rw [Gmp.nr, Gmp.nr, hlen]
  induction ds generalizing i ds' with
  | nil =>
    have hend := (hnr ▸ hl'.cut).length_le
    rw [show g.nr = i from hl.cut.symm] at hend
    rw [length_eq_zero_iff.mp (show ds'.length = 0 by omega)]
  | cons d ds ih =>
    cases ds' with
    | nil =>
      have hend := hl.cut.length_le
      rw [← hnr, show g'.nr = i from hl'.cut.symm, length_cons] at hend
      omega
    | cons d' ds' =>
      have hpa' : d'.pa = d.pa := by rw [hs'.pa i d' hl'.get, hs.pa i d hl.get, hpa]
      have hsame : d'.order = d.order ∧ d'.used = d.used ∧
          usedBlocks (i + 2 ^ d.order) ds' = usedBlocks (i + 2 ^ d.order) ds := by
        cases hd : d.used with
        | true =>
          obtain rfl := head_of_usedBlocks hused hd
          rw [usedBlocks_cons_used hd, usedBlocks_cons_used hd] at hused
          exact ⟨rfl, hd, (cons_eq_cons.mp hused).2⟩
        | false =>
          have hd' : d'.used = false := by
            by_contra hused'
            rw [Bool.not_eq_false] at hused'
            rw [head_of_usedBlocks hused.symm hused', hused'] at hd
            exact absurd hd (by simp)
          have hend := freeEnd_of_used hused hl.cut (hnr ▸ hl'.cut)
          have hle := hset'.topmost hl'.cut _ hl.cut.1 (hend ▸ le_freeEnd_of_free hd ds)
          have hge := hset.topmost hl.cut _ hl'.cut.1 (hend ▸ le_freeEnd_of_free hd' ds')
          have horder : d'.order = d.order := le_antisymm hge hle
          rw [usedBlocks_cons_free hd, usedBlocks_cons_free hd', horder] at hused
          exact ⟨horder, hd', hused⟩
      obtain ⟨horder, hsame, hrest⟩ := hsame
      have hl2 := hl'.tail
      have hset2 := hset'.tail
      rw [horder] at hl2 hset2
      rw [map_cons, map_cons, ih hl.tail hl2 hset.tail hset2 hrest, Gmdesc.layout, Gmdesc.layout,
        hpa', horder, hsame]

end

def Gmp.Coalesced (g : Gmp) : Prop := ∃ ds, g.Laid 0 ds ∧ SettledFrom 0 ds

lemma Gmp.Coalesced.exec (hw : g.Wf) (h : g.Coalesced) (c : Call) :
    ∃ g' splits, c.exec g = some (g', splits) ∧ g'.Coalesced := by
  obtain ⟨ds, hl, hset⟩ := h
  cases c with
  | alloc size tag pid mali =>
    rcases gmpAlloc_cases pid mali hw.sized hl size tag with
      ⟨-, hrun⟩ | ⟨pre, d, post, g1, e, rest, rfl, hd, he, hc, hrun⟩
    · exact ⟨_, _, by rw [Call.exec, hrun]; rfl, ds, hl.setCached none, hset⟩
    · refine ⟨_, _, by rw [Call.exec, hrun]; rfl, _, hc.laid_claim pid mali hl tag, ?_⟩
      have hle := (Gmdesc.fits_iff.mp hd).2
      exact hc.settled_claim hset rfl (Gmp.laid_append.mp hl).2.2.cut.1 (he ▸ hle) rfl rfl
  | free pa =>
    obtain ⟨g', ds', hrun, hset', hm⟩ := gmpFree_spec hw hl pa
    refine ⟨g', [], by simp [Call.exec, hrun], ds', ?_, hset'⟩
    rcases hm with ⟨hm, -⟩ | ⟨i, p, -, -, hm⟩
    · exact hm.laid
    · exact hm.laid
  | invalidate pid =>
    obtain ⟨g1, g', ds', hrun, hset', -, hm⟩ := gmpInvalidate_spec hw.sized hl pid
    exact ⟨g', [], by simp [Call.exec, hrun], ds', hm.laid, hset'⟩

lemma usedBlocks_filter {k : Nat} {p : Gmdesc} (hl : g.Laid 0 ds) (hp : g.gmdesc[k]? = some p)
    (hno : p ∈ ds → p.used = false) :
    (usedBlocks 0 ds).filter (fun q => decide (q.1 ≠ k)) = usedBlocks 0 ds := by
  refine filter_eq_self.mpr fun q hq => ?_
  by_contra hk
  have hk : q.1 = k := by simpa using hk
  have hget := hl.seg.get_of_mem_place (mem_of_mem_usedBlocks hq)
  rw [hk, hp] at hget
  have hqp : p = q.2 := Option.some.inj hget
  have hfree := hno (hqp ▸ mem_of_mem_place (mem_of_mem_usedBlocks hq))
  have hused : q.2.used = true := (mem_filter.mp hq).2
  rw [← hqp, hfree] at hused
  exact absurd hused (by simp)

/-- An allocation, and then the free of the address that it returned. When it returned none, that
is a free of the address `0`. -/
theorem Gmp.Coalesced.alloc_free (hw : g.Wf) (hl : g.Laid 0 ds) (hset : SettledFrom 0 ds)
    (size tag : Nat) (pid : Int) (mali : Option Nat) :
    ∃ r g', gmpAlloc g size tag pid mali = some r ∧ gmpFree r.gmp r.ret = some g' ∧
      (r.ret ≠ 0 ∨ (∀ d ∈ ds, d.pa ≠ 0) → ∃ ds', g'.visits = some ds' ∧
        ds'.map Gmdesc.layout = ds.map Gmdesc.layout) := by
  obtain ⟨r, hrun, hwr, hpa, hlen, -⟩ := hw.alloc size tag pid mali
  obtain ⟨g', hfree, hw', hpa', hlen'⟩ := hwr.free r.ret
  refine ⟨r, g', hrun, hfree, fun haddr => ?_⟩
  -- The used blocks after both calls are enough.
  suffices hused : ∃ ds', g'.Laid 0 ds' ∧ SettledFrom 0 ds' ∧ usedBlocks 0 ds' = usedBlocks 0 ds by
    obtain ⟨ds', hl', hset', hused⟩ := hused
    refine ⟨ds', hl'.visitsFrom_eq (hl'.ne_nil hw'.sized) (hl'.length_le hw'.sized), ?_⟩
    exact hl.layout_eq hw.sized hw'.sized (hpa'.trans hpa) (hlen'.trans hlen) hl' hset hset' hused
  rcases gmpAlloc_cases pid mali hw.sized hl size tag with
    ⟨-, hrun'⟩ | ⟨pre, d, post, g1, e, rest, rfl, hd, he, hc, hrun'⟩
  · obtain rfl := Option.some.inj (hrun.symm.trans hrun')
    obtain ⟨g'', ds', hfree', hset', hm⟩ := gmpFree_spec hwr (hl.setCached none) 0
    obtain rfl := Option.some.inj (hfree.symm.trans hfree')
    rcases hm with ⟨hm, -⟩ | ⟨k, p, hp, hppa, hm⟩
    · exact ⟨ds', hm.laid, hset', hm.used⟩
    · refine ⟨ds', hm.laid, hset', ?_⟩
      rw [hm.used, usedBlocks_release]
      refine usedBlocks_filter hl hp fun hmem => absurd hppa ?_
      exact haddr.resolve_left (fun h => h rfl) p hmem
  obtain rfl := Option.some.inj (hrun.symm.trans hrun')
  have hlr := hc.laid_claim pid mali hl tag
  have hdfree := (Gmdesc.fits_iff.mp hd).1
  have hle := he ▸ (Gmdesc.fits_iff.mp hd).2
  have hepa : e.pa = d.pa := by rw [hc.head]
  obtain ⟨g'', ds', hfree', hset', hm⟩ := gmpFree_spec hwr hlr d.pa
  obtain rfl := Option.some.inj (hfree.symm.trans hfree')
  rcases hm with ⟨-, hno⟩ | ⟨k, p, hp, hppa, hm⟩
  · have hmem : e.claim tag pid mali ∈ pre ++ e.claim tag pid mali :: (rest ++ post) := by simp
    exact (hno _ hmem hepa).elim
  refine ⟨ds', hm.laid, hset', ?_⟩
  -- Only the new block has the address, so the free takes it.
  have hget := (Gmp.laid_append.mp hlr).2.2.get
  obtain rfl := hwr.sized.index_eq hp hget (hppa.trans hepa.symm)
  obtain ⟨hold, hnew⟩ := hc.usedBlocks_claim (c := e.claim tag pid mali) rfl hdfree hle rfl rfl
  have hkeep := usedBlocks_filter hl (Gmp.laid_append.mp hl).2.2.get fun _ => hdfree
  rw [hm.used, usedBlocks_release, hnew, filter_append, filter_cons_of_neg (by simp),
    ← filter_append, ← hold, hkeep]

section
variable (hpa : pa < wordSize) (hpos : 0 < nr) (hlen : nr * unitSize < 2 ^ 31)
include hpa hpos hlen

lemma reachable_coalesced (h : Reachable pa nr g) : g.Coalesced := by
  induction h with
  | start hstart =>
    obtain ⟨mem, cached, pid, -, hreset⟩ := hstart
    obtain ⟨g', e, ds, hrun, hr⟩ := gmpReset_spec (rawPool_poolable hpa hpos hlen mem cached) pid
    obtain rfl := Option.some.inj (hreset.symm.trans hrun)
    exact ⟨_, hr.laid, hr.settled⟩
  | next c hreach hstep ih =>
    obtain ⟨g', splits, hrun, hg'⟩ := ih.exec (reachable_wf hpa hpos hlen hreach).1 c
    unfold PoolStep at hstep
    rw [hrun] at hstep
    obtain rfl := Option.some.inj hstep
    exact hg'

end

/-- In every state of every run no two free blocks are buddies. So an allocation and the free of
the address that it returned leave the blocks as they were: address, order and `used` of each. -/
theorem alloc_free_restores {pa nr : Nat} (hpa : pa < wordSize) (hpos : 0 < nr)
    (hlen : nr * unitSize < 2 ^ 31) {g : Gmp} (h : Reachable pa nr g) :
    ∃ ds, g.visits = some ds ∧ SettledFrom 0 ds ∧
      ∀ size tag pid mali, ∃ r g', gmpAlloc g size tag pid mali = some r ∧
        gmpFree r.gmp r.ret = some g' ∧ (r.ret ≠ 0 ∨ (∀ d ∈ ds, d.pa ≠ 0) →
          ∃ ds', g'.visits = some ds' ∧ ds'.map Gmdesc.layout = ds.map Gmdesc.layout) := by
  obtain ⟨hw, -⟩ := reachable_wf hpa hpos hlen h
  obtain ⟨ds, hl, hset⟩ := reachable_coalesced hpa hpos hlen h
  refine ⟨ds, hl.visitsFrom_eq (hl.ne_nil hw.sized) (hl.length_le hw.sized), hset, ?_⟩
  exact fun size tag pid mali => Gmp.Coalesced.alloc_free hw hl hset size tag pid mali

/-- Two units of the pool of five, allocated and freed. -/
theorem alloc_free_smallPool :
    ((gmpAlloc smallPool 65537 0x41 7 none).map fun r => r.ret) = some 0x1020000 ∧
    ∃ ds r g' ds', smallPool.visits = some ds ∧ gmpAlloc smallPool 65537 0x41 7 none = some r ∧
      gmpFree r.gmp r.ret = some g' ∧ g'.visits = some ds' ∧
      ds'.map Gmdesc.layout = ds.map Gmdesc.layout := by
  have hret : ((gmpAlloc smallPool 65537 0x41 7 none).map fun r => r.ret) = some 0x1020000 := by
    decide +kernel
  obtain ⟨ds, hds, -, hrun⟩ := alloc_free_restores (by decide) (by decide)
    (by decide) reachable_smallPool
  obtain ⟨r, g', hr, hg', hrest⟩ := hrun 65537 0x41 7 none
  have hne : r.ret = 0x1020000 := by simpa [hr] using hret
  obtain ⟨ds', hds', hlayout⟩ := hrest (.inl (by rw [hne]; decide))
  exact ⟨hret, ds, r, g', ds', hds, hr, hg', hds', hlayout⟩

end Wm8850.Ge
