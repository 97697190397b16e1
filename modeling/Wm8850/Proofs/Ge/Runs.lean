import Wm8850.Proofs.Ge.Calls

/-! # What holds in every run of the pool

Every call keeps `Gmp.Wf`, and `reachable_layout` reads it off in addresses. Addresses are words, so
the offset of a block is the difference to the base modulo `2 ^ 32`. -/

namespace Wm8850.Ge

open Lib List

/-! ### The invariant -/

variable {g : Gmp} {k i order : Nat} {d : Gmdesc} {ds : List Gmdesc} {p : Nat × Gmdesc}

lemma Gmp.Wf.alloc (hw : g.Wf) (size tag : Nat) (pid : Int) (mali : Option Nat) :
    ∃ r, gmpAlloc g size tag pid mali = some r ∧ r.gmp.Wf ∧ r.gmp.pa = g.pa ∧
      r.gmp.len = g.len ∧ ∀ s ∈ r.splits, s = 0 := by
  obtain ⟨ds, hl⟩ := hw.laid
  rcases gmpAlloc_cases pid mali hw.sized hl size tag with
    ⟨-, hrun⟩ | ⟨pre, d, post, g1, e, rest, rfl, -, -, hc, hrun⟩
  · refine ⟨_, hrun, ?_, rfl, rfl, by simp⟩
    exact ⟨hw.sized.of_pas rfl rfl rfl, by simp, ds, hl.setCached none⟩
  refine ⟨_, hrun, ?_, hc.pa, hc.len, fun s hs => eq_of_mem_replicate hs⟩
  have hs1 : ({ g1 with cached := some (stopAt Gmdesc.order 0 pre) } : Gmp).Sized :=
    (hc.sized hw.sized).of_pas rfl rfl rfl
  refine ⟨hs1.write hc.laid.get rfl, fun c hcached => ?_, _, hc.laid_claim pid mali hl tag⟩
  cases hcached
  have hlt := (List.getElem?_eq_some_iff.mp hc.laid.get).1
  rwa [(hc.sized hw.sized).length] at hlt

lemma Gmp.Wf.free (hw : g.Wf) (pa : Nat) :
    ∃ g', gmpFree g pa = some g' ∧ g'.Wf ∧ g'.pa = g.pa ∧ g'.len = g.len := by
  obtain ⟨ds, hl⟩ := hw.laid
  obtain ⟨g', ds', hrun, -, ⟨hm, -⟩ | ⟨i, p, hp, -, hm⟩⟩ := gmpFree_spec hw hl pa
  · refine ⟨g', hrun, ⟨hm.sized hw.sized, fun c hc => ?_, ds', hm.laid⟩, hm.pa, hm.len⟩
    rw [hm.nr]
    exact hw.cached c (by rw [← hm.cached]; exact hc)
  · refine ⟨g', hrun, ⟨hm.sized (hw.sized.write hp rfl), fun c hc => ?_, ds', hm.laid⟩, hm.pa,
      hm.len⟩
    rw [hm.nr]
    exact hw.cached c (by rw [← hc]; exact hm.cached.symm)

lemma Gmp.Wf.invalidate (hw : g.Wf) (pid : Int) :
    ∃ g', gmpInvalidate g pid = some g' ∧ g'.Wf ∧ g'.pa = g.pa ∧ g'.len = g.len := by
  obtain ⟨ds, hl⟩ := hw.laid
  obtain ⟨g1, g', ds', hrun, -, hsame, hm⟩ := gmpInvalidate_spec hw.sized hl pid
  have hnr : g'.nr = g.nr := by rw [Gmp.nr, Gmp.nr, hm.len, hsame.len]
  refine ⟨g', hrun, ⟨hm.sized hsame.sized, fun c hc => ?_, ds', hm.laid⟩, hm.pa.trans hsame.pa,
    hm.len.trans hsame.len⟩
  rw [hnr]
  exact hw.cached c (by rw [← hc, hm.cached, hsame.cached])

lemma Gmp.Wf.exec (hw : g.Wf) (c : Call) :
    ∃ g' splits, c.exec g = some (g', splits) ∧ g'.Wf ∧ g'.pa = g.pa ∧ g'.len = g.len ∧
      ∀ s ∈ splits, s = 0 := by
  cases c with
  | alloc size tag pid mali =>
    obtain ⟨r, hrun, hw', hpa, hlen, hsplits⟩ := hw.alloc size tag pid mali
    exact ⟨r.gmp, r.splits, by simp [Call.exec, hrun], hw', hpa, hlen, hsplits⟩
  | free pa =>
    obtain ⟨g', hrun, hw', hpa, hlen⟩ := hw.free pa
    exact ⟨g', [], by simp [Call.exec, hrun], hw', hpa, hlen, by simp⟩
  | invalidate pid =>
    obtain ⟨g', hrun, hw', hpa, hlen⟩ := hw.invalidate pid
    exact ⟨g', [], by simp [Call.exec, hrun], hw', hpa, hlen, by simp⟩

section
variable {pa nr : Nat} (hpa : pa < wordSize) (hpos : 0 < nr) (hlen : nr * unitSize < 2 ^ 31)
include hpa hpos hlen

lemma rawPool_poolable (mem : List Gmdesc) (cached : Option Nat) :
    (rawPool pa nr mem cached).Poolable := by
  have hnr : (rawPool pa nr mem cached).nr = nr := Nat.mul_div_cancel nr (by decide)
  refine ⟨hpa, by rw [hnr]; exact hpos, ?_⟩
  simp only [unitSize] at hlen
  omega

lemma reachable_wf (h : Reachable pa nr g) : g.Wf ∧ g.pa = pa ∧ g.len = nr * unitSize := by
  refine Reach.invariant (fun g => g.Wf ∧ g.pa = pa ∧ g.len = nr * unitSize) ?_ ?_ h
  · rintro g ⟨mem, cached, pid, -, hreset⟩
    have hp := rawPool_poolable hpa hpos hlen mem cached
    obtain ⟨g', e, ds, hrun, hr⟩ := gmpReset_spec hp pid
    obtain rfl : g = g' := Option.some.inj (hreset.symm.trans hrun)
    refine ⟨⟨hr.sized, fun c hc => ?_, _, hr.laid⟩, hr.pa, hr.len⟩
    rw [hr.cached] at hc
    cases hc
    exact hr.sized.pos
  intro c g g' hinv hstep
  obtain ⟨g'', splits, hrun, hw', hpa', hlen', -⟩ := hinv.1.exec c
  unfold PoolStep at hstep
  rw [hrun] at hstep
  obtain rfl : g'' = g' := Option.some.inj hstep
  exact ⟨hw', hpa'.trans hinv.2.1, hlen'.trans hinv.2.2⟩

end

/-! ### The blocks, in addresses -/

/-- The blocks lie one behind the other from `lo` to `hi`. -/
def Abut (start size : Gmdesc → Nat) : Nat → List Gmdesc → Nat → Prop
  | lo, [], hi => lo = hi
  | lo, d :: ds, hi => start d = lo ∧ Abut start size (lo + size d) ds hi

def Gmdesc.offset (pa : Nat) (d : Gmdesc) : Nat := wsub d.pa pa

section
variable {g : Gmp} (hs : g.Sized) {i : Nat} {ds : List Gmdesc} (hl : g.Laid i ds)
include hs

lemma Gmp.Sized.offset_eq (hpa : g.pa < wordSize)
    (hd : g.gmdesc[k]? = some d) : d.offset g.pa = k * unitSize := by
  have hk := (List.getElem?_eq_some_iff.mp hd).1
  have hbound := hs.bound
  rw [hs.length] at hk
  have hbase : wadd g.pa 0 = g.pa := Nat.mod_eq_of_lt hpa
  have hlt : k * unitSize < wordSize := by
    simp only [unitSize, wordSize]
    omega
  have hdist := wsub_wadd_wadd (a := g.pa) (Nat.zero_le (k * unitSize)) hlt
  rw [hbase] at hdist
  rw [Gmdesc.offset, hs.pa k d hd]
  exact hdist

include hl

lemma Gmp.Laid.abut (hpa : g.pa < wordSize) :
    Abut (Gmdesc.offset g.pa) gmpSize (i * unitSize) ds (g.nr * unitSize) := by
  induction ds generalizing i with
  | nil =>
    have hi : i = g.nr := hl.cut
    rw [hi]
    rfl
  | cons d ds ih =>
    refine ⟨hs.offset_eq hpa hl.get, ?_⟩
    have hnext : i * unitSize + gmpSize d = (i + 2 ^ d.order) * unitSize := by
      rw [gmpSize, gmpNr, add_mul]
    rw [hnext]
    exact ih hl.tail

lemma Gmp.Laid.size_dvd_offset (hpa : g.pa < wordSize) : ∀ d ∈ ds, gmpSize d ∣ d.offset g.pa := by
  induction ds generalizing i with
  | nil => simp
  | cons d ds ih =>
    intro c hc
    rcases mem_cons.mp hc with rfl | hc
    · rw [hs.offset_eq hpa hl.get]
      exact Nat.mul_dvd_mul_right hl.cut.1 unitSize
    · exact ih hl.tail c hc

omit hs in
lemma Gmp.Laid.map_tail (hne : ds ≠ []) :
    ds.map Gmdesc.tail = replicate (ds.length - 1) false ++ [true] := by
  induction ds generalizing i with
  | nil => exact absurd rfl hne
  | cons d ds ih =>
    have htail : d.tail = decide (ds = []) := by
      rw [hl.seg.2.1]
      exact decide_eq_decide.mpr hl.nil_iff.symm
    cases ds with
    | nil => simpa using htail
    | cons e ds =>
      have hrest := ih hl.tail (cons_ne_nil e ds)
      rw [map_cons, hrest, htail]
      simp [replicate_succ]

end

lemma Abut.pairwise {start size : Gmdesc → Nat} {lo hi : Nat}
    (h : Abut start size lo ds hi) : ds.Pairwise fun c d => start c + size c ≤ start d := by
  have hle : ∀ {lo : Nat} {ds : List Gmdesc}, Abut start size lo ds hi →
      ∀ d ∈ ds, lo ≤ start d := by
    intro lo ds
    induction ds generalizing lo with
    | nil => simp
    | cons c ds ih =>
      intro h d hd
      rcases mem_cons.mp hd with rfl | hd
      · exact le_of_eq h.1.symm
      · exact le_trans (Nat.le_add_right _ _) (ih h.2 d hd)
  induction ds generalizing lo with
  | nil => exact List.Pairwise.nil
  | cons c ds ih =>
    refine List.Pairwise.cons (fun d hd => ?_) (ih h.2)
    rw [h.1]
    exact hle h.2 d hd

/-- `gmp_reset` comes to an end. In every run after it the walk visits blocks that fill the pool, a
block of order `k` starts at a multiple of `2 ^ k` times 64 KB, and `tail` is set in the last one
only. Every further call comes to an end, and no `gmp_split` in it fails. -/
theorem reachable_layout {pa nr : Nat} (hpa : pa < wordSize) (hpos : 0 < nr)
    (hlen : nr * unitSize < 2 ^ 31) :
    (∀ mem cached pid, ∃ g, gmpReset (rawPool pa nr mem cached) pid = some g) ∧
    ∀ g, Reachable pa nr g → (∃ ds, g.visits = some ds ∧
        Abut (Gmdesc.offset pa) gmpSize 0 ds (nr * unitSize) ∧ (∀ d ∈ ds, gmpSize d ∣ d.offset pa) ∧
        ds.map Gmdesc.tail = replicate (ds.length - 1) false ++ [true] ∧
        (ds.filter Gmdesc.used).Pairwise fun c d => c.offset pa + gmpSize c ≤ d.offset pa) ∧
      ∀ c : Call, ∃ g' splits, c.exec g = some (g', splits) ∧ ∀ s ∈ splits, s = 0 := by
  constructor
  · intro mem cached pid
    obtain ⟨g, -, -, hrun, -⟩ := gmpReset_spec (rawPool_poolable hpa hpos hlen mem cached) pid
    exact ⟨g, hrun⟩
  intro g h
  obtain ⟨hw, hgpa, hglen⟩ := reachable_wf hpa hpos hlen h
  have hgnr : g.nr = nr := by
    rw [Gmp.nr, hglen]
    exact Nat.mul_div_cancel nr (by decide)
  constructor
  · obtain ⟨ds, hl⟩ := hw.laid
    have habut := hl.abut hw.sized (by rw [hgpa]; exact hpa)
    have hdvd := hl.size_dvd_offset hw.sized (by rw [hgpa]; exact hpa)
    rw [hgpa, hgnr] at habut
    rw [hgpa] at hdvd
    have hne := hl.ne_nil hw.sized
    exact ⟨ds, hl.visitsFrom_eq hne (hl.length_le hw.sized), habut, hdvd, hl.map_tail hne,
      habut.pairwise.filter _⟩
  · intro c
    obtain ⟨g', splits, hrun, -, -, -, hsplits⟩ := hw.exec c
    exact ⟨g', splits, hrun, hsplits⟩

def smallMem : List Gmdesc :=
  replicate 5
    { pa := 7, order := 9, used := true, tag := 0, owner := 5, tail := true, secureId := 3 }

/-- A pool of five units after its reset. -/
def smallPool : Gmp :=
  (gmpReset (rawPool 0x1000000 5 smallMem none) 3).getD (rawPool 0x1000000 5 smallMem none)

lemma reachable_smallPool : Reachable 0x1000000 5 smallPool :=
  Reach.start ⟨smallMem, none, 3, rfl, by decide +kernel⟩

theorem smallPool_layout : (smallPool.visits.map fun ds => ds.map fun d => (d.pa, d.order, d.used))
      = some [(0x1000000, 0, true), (0x1010000, 0, false), (0x1020000, 1, false),
          (0x1040000, 0, false)] ∧ ∃ ds, smallPool.visits = some ds ∧
      Abut (Gmdesc.offset 0x1000000) gmpSize 0 ds (5 * unitSize) := by
  refine ⟨by decide +kernel, ?_⟩
  obtain ⟨ds, hds, habut, -⟩ :=
    ((reachable_layout (by decide) (by decide) (by decide)).2 _ reachable_smallPool).1
  exact ⟨ds, hds, habut⟩

/-! ### Which block an allocation takes -/

lemma place_halves (hds : ds.map Gmdesc.order = range' k ds.length)
    (hp : p ∈ place Gmdesc.order (i + 2 ^ k) ds) : p.1 = i + 2 ^ p.2.order := by
  induction ds generalizing k with
  | nil => simp [place] at hp
  | cons d ds ih =>
    rw [map_cons, length_cons, range'_succ, cons_eq_cons] at hds
    rcases mem_cons.mp hp with rfl | hp
    · rw [hds.1]
    · rw [hds.1, show i + 2 ^ k + 2 ^ k = i + 2 ^ (k + 1) by omega] at hp
      exact ih hds.2 hp

lemma Gmp.Seg.get_of_mem_place (h : g.Seg i ds)
    (hp : p ∈ place Gmdesc.order i ds) : g.gmdesc[p.1]? = some p.2 := by
  induction ds generalizing i with
  | nil => simp [place] at hp
  | cons d ds ih =>
    rcases mem_cons.mp hp with rfl | hp
    · exact h.1
    · exact ih h.2.2 hp

lemma Carved.rest_pa {g' : Gmp} {e : Gmdesc} {rest : List Gmdesc}
    (h : Carved g g' i d e rest ds) (hs : g.Sized) (hfit : g.pa + g.nr * unitSize ≤ wordSize) :
    ∀ c ∈ rest, c.pa = e.pa + 2 ^ c.order * unitSize := by
  intro c hc
  have hs' := h.sized hs
  have hlen : rest.length = d.order - e.order := by
    have := congrArg length h.orders
    simpa using this
  have horders := h.orders
  rw [← hlen] at horders
  -- The unit of `c`, from the cut behind `e`.
  have hmem : c ∈ (place Gmdesc.order (i + 2 ^ e.order) rest).map Prod.snd := by
    rw [map_snd_place]
    exact hc
  obtain ⟨p, hp, rfl⟩ := mem_map.mp hmem
  have hunit := place_halves horders hp
  have hget := (Gmp.seg_append.mp h.laid.tail.seg).1.get_of_mem_place hp
  have hlt := (List.getElem?_eq_some_iff.mp hget).1
  have hnr : g'.nr = g.nr := h.nr
  rw [hs'.length] at hlt
  rw [hs'.pa _ _ hget, hs'.pa _ _ h.laid.get, h.pa, hunit]
  have hle : (i + 2 ^ p.2.order) * unitSize < g.nr * unitSize :=
    mul_lt_mul_of_pos_right (by omega) (by decide)
  rw [add_mul] at hle ⊢
  rw [wadd_of_lt (by omega), wadd_of_lt (by omega)]
  omega

lemma Gmdesc.fits_iff : d.fits order = true ↔ d.used = false ∧ order ≤ d.order := by
  simp [Gmdesc.fits]

lemma Gmdesc.fits_eq_false : d.fits order = false ↔ ¬ (d.used = false ∧ order ≤ d.order) := by
  rw [← Bool.not_eq_true, Gmdesc.fits_iff]

lemma Gmp.Sized.pa_ne_zero (hs : g.Sized) (hpa : 0 < g.pa)
    (hfit : g.pa + g.nr * unitSize ≤ wordSize) (hd : g.gmdesc[k]? = some d) : d.pa ≠ 0 := by
  have hk := (List.getElem?_eq_some_iff.mp hd).1
  rw [hs.length] at hk
  have hlt : k * unitSize < g.nr * unitSize := mul_lt_mul_of_pos_right hk (by decide)
  rw [hs.pa k d hd, wadd_of_lt (by omega)]
  omega

/-- `gmp_alloc` returns an address exactly when a free block has the least order whose block holds
the size, or more. It is the start of the first such block, which gets this order. Its other units
become free blocks of this order, the next one and so on. The other blocks stay. -/
theorem gmpAlloc_first_fit {pa nr : Nat} (hpa : 0 < pa) (hpos : 0 < nr)
    (hlen : nr * unitSize < 2 ^ 31) (hfit : pa + nr * unitSize ≤ wordSize) {g : Gmp}
    (h : Reachable pa nr g) {size : Nat} (hsize : size < wordSize) (tag : Nat) (pid : Int)
    (mali : Option Nat) : ∃ ds r, g.visits = some ds ∧ gmpAlloc g size tag pid mali = some r ∧
      (size ≤ 2 ^ gmpGetOrder size * unitSize ∧ ∀ m < gmpGetOrder size, 2 ^ m * unitSize < size) ∧
      (r.ret ≠ 0 ↔ ∃ d ∈ ds, d.used = false ∧ gmpGetOrder size ≤ d.order) ∧
      (r.ret = 0 → r.gmp.visits = some ds) ∧ ∀ pre d post, ds = pre ++ d :: post →
        (∀ c ∈ pre, ¬ (c.used = false ∧ gmpGetOrder size ≤ c.order)) →
        d.used = false → gmpGetOrder size ≤ d.order → r.ret = d.pa ∧
          ∃ rest tl, r.gmp.visits = some (pre ++
            { d.claim tag pid mali with order := gmpGetOrder size, tail := tl } :: (rest ++ post)) ∧
          rest.map Gmdesc.order = range' (gmpGetOrder size) (d.order - gmpGetOrder size) ∧
          ∀ c ∈ rest, c.used = false ∧ c.pa = d.pa + 2 ^ c.order * unitSize := by
  have hunit : 0 < nr * unitSize := mul_pos hpos (by decide)
  obtain ⟨hw, hgpa, hglen⟩ := reachable_wf (by omega) hpos hlen h
  have hgnr : g.nr = nr := by
    rw [Gmp.nr, hglen]
    exact Nat.mul_div_cancel nr (by decide)
  have hfit' : g.pa + g.nr * unitSize ≤ wordSize := by rw [hgpa, hgnr]; exact hfit
  have hpa' : 0 < g.pa := by rw [hgpa]; exact hpa
  obtain ⟨ds, hl⟩ := hw.laid
  have hvisits := hl.visitsFrom_eq (hl.ne_nil hw.sized) (hl.length_le hw.sized)
  obtain ⟨r, hrun, hwr, -⟩ := hw.alloc size tag pid mali
  -- no descriptor has the address `0`, so the answer tells the two cases apart
  have houtcome : (r.ret = 0 ∧ r.gmp.visits = some ds ∧
        ∀ d ∈ ds, ¬ (d.used = false ∧ gmpGetOrder size ≤ d.order)) ∨
      (r.ret ≠ 0 ∧ ∃ d ∈ ds, d.used = false ∧ gmpGetOrder size ≤ d.order) := by
    rcases gmpAlloc_cases pid mali hw.sized hl size tag with
      ⟨hno, hrun'⟩ | ⟨pre, d, post, g₁, e, rest, rfl, hd, -, -, hrun'⟩
    · rw [Option.some.inj (hrun.symm.trans hrun')]
      have hle := hl.length_le hw.sized
      exact .inl ⟨rfl, (hl.setCached none).visitsFrom_eq (hl.ne_nil hw.sized) hle,
        fun d hd => Gmdesc.fits_eq_false.mp (hno d hd)⟩
    · rw [Option.some.inj (hrun.symm.trans hrun')]
      exact .inr ⟨hw.sized.pa_ne_zero hpa' hfit' (Gmp.laid_append.mp hl).2.2.get,
        d, by simp, Gmdesc.fits_iff.mp hd⟩
  refine ⟨ds, r, hvisits, hrun, gmpGetOrder_spec hsize, ?_, ?_, ?_⟩
  · rcases houtcome with ⟨hret, -, hno⟩ | ⟨hret, hfits⟩
    · refine iff_of_false (fun hne => hne hret) ?_
      rintro ⟨d, hd, hfits⟩
      exact hno d hd hfits
    · exact iff_of_true hret hfits
  · intro hret
    rcases houtcome with ⟨-, hkept, -⟩ | ⟨hne, -⟩
    · exact hkept
    · exact absurd hret hne
  rintro pre d post rfl hpre hfree horder
  have hpre' : ∀ c ∈ pre, c.fits (gmpGetOrder size) = false :=
    fun c hc => Gmdesc.fits_eq_false.mpr (hpre c hc)
  obtain ⟨g₁, e, rest, he, hc, hrun'⟩ :=
    gmpAlloc_of_free pid mali hw.sized hl hpre' (Gmdesc.fits_iff.mpr ⟨hfree, horder⟩) tag
  have hr := Option.some.inj (hrun.symm.trans hrun')
  have hlr := hc.laid_claim pid mali hl tag
  have hepa : e.pa = d.pa := by rw [hc.head]
  refine ⟨by rw [hr], rest, e.tail, ?_, ?_, fun c hcr => ⟨?_, ?_⟩⟩
  · have hclaim : e.claim tag pid mali
        = { d.claim tag pid mali with order := gmpGetOrder size, tail := e.tail } := by
      rw [← he]
      conv_lhs => rw [hc.head]
      rfl
    rw [hr] at hwr ⊢
    rw [← hclaim]
    exact hlr.visitsFrom_eq (hlr.ne_nil hwr.sized) (hlr.length_le hwr.sized)
  · rw [hc.orders, he]
  · rw [hc.used c hcr]
    exact hfree
  · rw [← hepa]
    exact hc.rest_pa hw.sized hfit' c hcr

/-- A process asks the pool of five units for one byte more than a unit, and gets the block of
two units. -/
theorem smallPool_alloc : ((gmpAlloc smallPool 65537 0x41 7 none).map fun r => r.ret) =
    some 0x1020000 ∧
    ∃ ds r, smallPool.visits = some ds ∧ gmpAlloc smallPool 65537 0x41 7 none = some r ∧
      (r.ret ≠ 0 ↔ ∃ d ∈ ds, d.used = false ∧ gmpGetOrder 65537 ≤ d.order) := by
  refine ⟨by decide +kernel, ?_⟩
  obtain ⟨ds, r, hds, hr, -, hiff, -⟩ := gmpAlloc_first_fit (by decide) (by decide) (by decide)
    (by decide) reachable_smallPool (show 65537 < wordSize by decide) 0x41 7 none
  exact ⟨ds, r, hds, hr, hiff⟩

end Wm8850.Ge
