import Wm8850.Ge.Device
import Wm8850.Proofs.Ge.Runs

/-! # The blocks that the UMP commands hand out

`GMP_FREE_UMP` looks the id up at the cached descriptor and then along the blocks. The cached one
need not start a block any more, so the invariant speaks of all descriptors: one with a valid id
starts a used block with this id (`Guarded.ids`). The first block has the invalid id and stays as
long as nobody frees that id. -/

namespace Wm8850.Ge

open Lib List

variable {i k : Nat} {d : Gmdesc} {s : UmpState} {ds pre post rest : List Gmdesc} {e c : Gmdesc}
    {g g1 g' : Gmp} {id : Nat}

/-! ### The used blocks -/

lemma usedBlocks_append (i : Nat) (ds es : List Gmdesc) :
    usedBlocks i (ds ++ es) = usedBlocks i ds ++ usedBlocks (stopAt Gmdesc.order i ds) es := by
  rw [usedBlocks, place_append, filter_append]
  rfl

lemma usedBlocks_of_free (i : Nat) (h : ∀ d ∈ ds, d.used = false) : usedBlocks i ds = [] := by
  refine filter_eq_nil_iff.mpr fun p hp => ?_
  simp [h p.2 (mem_of_mem_place hp)]

lemma usedBlocks_cons_used (hd : d.used = true) (ds : List Gmdesc) :
    usedBlocks i (d :: ds) = (i, d) :: usedBlocks (i + 2 ^ d.order) ds :=
  filter_cons_of_pos hd

lemma usedBlocks_release (k i : Nat) (ds : List Gmdesc) :
    usedBlocks i (writeAt k Gmdesc.release i ds)
      = (usedBlocks i ds).filter fun p => decide (p.1 ≠ k) := by
  induction ds generalizing i with
  | nil => rfl
  | cons d ds ih =>
    have hcons : ∀ (c : Gmdesc) (cs : List Gmdesc), usedBlocks i (c :: cs)
        = (if c.used = true then [(i, c)] else []) ++ usedBlocks (i + 2 ^ c.order) cs := by
      intro c cs
      cases hc : c.used with
      | true => rw [usedBlocks_cons_used hc]; rfl
      | false => exact filter_cons_of_neg (by simp [hc])
    rw [writeAt, hcons, hcons, filter_append, ← ih]
    by_cases hik : i = k
    · simp [hik, Gmdesc.release]
    · cases hd : d.used with
      | true => simp [hik, hd]
      | false => simp [hik, hd]

lemma mem_of_mem_usedBlocks {p : Nat × Gmdesc} (hp : p ∈ usedBlocks i ds) :
    p ∈ place Gmdesc.order i ds := (mem_filter.mp hp).1

lemma eq_cons_of_mem_place (h : (i, e) ∈ place Gmdesc.order i ds) : ∃ ds', ds = e :: ds' := by
  cases ds with
  | nil => simp [place] at h
  | cons d ds =>
    rcases mem_cons.mp h with heq | h
    · cases heq
      exact ⟨ds, rfl⟩
    · have hle : i + 2 ^ d.order ≤ i := le_of_mem_place h
      have hpos := Nat.two_pow_pos d.order
      omega

lemma stopAt_halves {n : Nat} (hds : ds.map Gmdesc.order = range' k n) :
    stopAt Gmdesc.order (i + 2 ^ k) ds = i + 2 ^ (k + n) := by
  induction ds generalizing k n with
  | nil =>
    cases n with
    | zero => simp
    | succ n => simp at hds
  | cons d ds ih =>
    cases n with
    | zero => simp at hds
    | succ n =>
      rw [map_cons, range'_succ, cons_eq_cons] at hds
      have hpow : i + 2 ^ k + 2 ^ k = i + 2 ^ (k + 1) := by omega
      rw [stopAt_cons, hds.1, hpow, ih hds.2, add_right_comm, add_assoc]

lemma Gmp.Sized.index_eq (hs : g.Sized) {j : Nat}
    (hc : g.gmdesc[j]? = some c) (hd : g.gmdesc[k]? = some d) (hpa : c.pa = d.pa) : j = k := by
  have hj := (List.getElem?_eq_some_iff.mp hc).1
  have hk := (List.getElem?_eq_some_iff.mp hd).1
  have hbound := hs.bound
  rw [hs.length] at hj hk
  rw [hs.pa j c hc, hs.pa k d hd] at hpa
  simp only [wadd, unitSize, wordSize] at hpa
  omega

lemma Carved.usedBlocks_claim
    (hc : Carved g g1 i d e rest post) (hi : stopAt Gmdesc.order 0 pre = i) (hd : d.used = false)
    (hle : e.order ≤ d.order) (horder : c.order = e.order) (hused : c.used = true) :
    usedBlocks 0 (pre ++ d :: post) = usedBlocks 0 pre ++ usedBlocks (i + 2 ^ d.order) post ∧
    usedBlocks 0 (pre ++ c :: (rest ++ post))
      = usedBlocks 0 pre ++ (i, c) :: usedBlocks (i + 2 ^ d.order) post := by
  have hfree : ∀ r ∈ rest, r.used = false := fun r hr => (hc.used r hr).trans hd
  have hstop := stopAt_halves (i := i) hc.orders
  rw [Nat.add_sub_cancel' hle] at hstop
  constructor
  · have hskip : usedBlocks i (d :: post) = usedBlocks (i + 2 ^ d.order) post :=
      filter_cons_of_neg (by simp [hd])
    rw [usedBlocks_append, hi, hskip]
  · rw [usedBlocks_append, hi, usedBlocks_cons_used hused, usedBlocks_append,
      usedBlocks_of_free _ hfree, horder, hstop, nil_append]

/-! ### The invariant -/

/-- The pool with the blocks `e :: ds`, where `e` holds the descriptors and `made` are the blocks
that `GMP_ALLOC_UMP` created. -/
structure Guarded (pa nr : Nat) (made : List (Nat × Nat)) (g : Gmp) (e : Gmdesc)
    (ds : List Gmdesc) : Prop where
  wf : g.Wf
  base : g.pa = pa
  length : g.len = nr * unitSize
  laid : g.Laid 0 (e :: ds)
  used : e.used = true
  order : e.order = gmpGetOrder (sizeofGmdesc * nr)
  noId : e.secureId = umpInvalidSecureId
  ids : ∀ k d, g.gmdesc[k]? = some d → d.secureId ≠ umpInvalidSecureId →
    (k, d) ∈ usedBlocks 0 (e :: ds) ∧
      made.find? (fun m => decide (m.1 = d.pa)) = some (d.pa, d.secureId)

section
variable {pa nr : Nat} {made : List (Nat × Nat)} {g : Gmp} {e : Gmdesc} {ds : List Gmdesc}

lemma Guarded.nr_eq (h : Guarded pa nr made g e ds) : g.nr = nr := by
  rw [Gmp.nr, h.length]
  exact Nat.mul_div_cancel nr (by decide)

lemma Guarded.release (h : Guarded pa nr made g e ds) {p : Gmdesc} (hk : k ≠ 0) {ds' : List Gmdesc}
    (hw : g'.Wf) (hm : Merged (g.set k p.release) g' 0 (writeAt k Gmdesc.release 0 (e :: ds)) ds') :
    ∃ ds'', ds' = e :: ds'' ∧ Guarded pa nr made g' e ds'' ∧
      usedBlocks 0 (e :: ds'') = (usedBlocks 0 (e :: ds)).filter fun p => decide (p.1 ≠ k) := by
  have hused := hm.used
  rw [usedBlocks_release] at hused
  have hfirst : (0, e) ∈ usedBlocks 0 ds' := by
    rw [hused, usedBlocks_cons_used h.used]
    simp [hk.symm]
  obtain ⟨ds'', rfl⟩ := eq_cons_of_mem_place (mem_of_mem_usedBlocks hfirst)
  refine ⟨ds'', rfl, ⟨hw, hm.pa.trans h.base, hm.len.trans h.length, hm.laid, h.used, h.order,
    h.noId, fun j d' hd' hid => ?_⟩, hused⟩
  rcases hm.idsKept j d' hd' with hinv | ⟨d, hd, hsame⟩
  · exact absurd hinv hid
  have hset : (g.gmdesc.set k p.release)[j]? = some d := hd
  rw [getElem?_set] at hset
  split at hset
  · -- the released descriptor has the invalid id
    split at hset
    · cases hset
      exact absurd hsame hid
    · cases hset
  next hkj =>
  obtain ⟨hmem, hmade⟩ := h.ids j d hset (hsame ▸ hid)
  have hmem' : (j, d) ∈ usedBlocks 0 (e :: ds'') := by
    rw [hused]
    exact mem_filter.mpr ⟨hmem, by simpa using fun heq => hkj heq.symm⟩
  have hget := hm.laid.seg.get_of_mem_place (mem_of_mem_usedBlocks hmem')
  obtain rfl : d = d' := Option.some.inj (hget.symm.trans hd')
  exact ⟨hmem', hmade⟩

lemma gmpGetAddrFromSecureId_spec (hw : g.Wf) (id : Nat) : gmpGetAddrFromSecureId g id = some 0 ∨
    ∃ (k : Nat) (p : Gmdesc), g.gmdesc[k]? = some p ∧ p.secureId = id ∧
      gmpGetAddrFromSecureId g id = some p.pa := by
  obtain ⟨ds, hl⟩ := hw.laid
  have hwalk : findGmdesc g (fun p => decide (p.secureId = id)) g.gmdesc.length 0 = some none ∨
      ∃ k p, g.gmdesc[k]? = some p ∧ p.secureId = id ∧
        findGmdesc g (fun p => decide (p.secureId = id)) g.gmdesc.length 0 = some (some k) := by
    rcases hl.findGmdesc_cases hw.sized fun p => decide (p.secureId = id) with
      ⟨hrun, -⟩ | ⟨pre, d, post, rfl, hd, -, hrun⟩
    · exact .inl hrun
    · exact .inr ⟨_, d, (Gmp.laid_append.mp hl).2.2.get, of_decide_eq_true hd, hrun⟩
  unfold gmpGetAddrFromSecureId
  cases hc : g.cached with
  | none =>
    rcases hwalk with hrun | ⟨k, p, hp, hid, hrun⟩
    · exact .inl (by simp [hrun])
    · exact .inr ⟨k, p, hp, hid, by simp [hrun, hp]⟩
  | some c =>
    obtain ⟨p, hp⟩ := hw.sized.get_of_lt (hw.cached c hc)
    by_cases hid : p.secureId = id
    · exact .inr ⟨c, p, hp, hid, by simp [hp, hid]⟩
    · rcases hwalk with hrun | ⟨k, q, hq, hid', hrun⟩
      · exact .inl (by simp [hp, hid, hrun])
      · exact .inr ⟨k, q, hq, hid', by simp [hp, hid, hrun, hq]⟩

section
variable (h : Guarded pa nr made g e ds)
include h

lemma Guarded.freeUmp (hid : id ≠ umpInvalidSecureId) :
    ∃ g' ans ds', gmpFreeUmp g id = some (g', ans) ∧ Guarded pa nr made g' e ds' ∧
      (usedBlocks 0 (e :: ds') = usedBlocks 0 (e :: ds) ∨ ∃ k p, g.gmdesc[k]? = some p ∧
          made.find? (fun m => decide (m.1 = p.pa)) = some (p.pa, id) ∧ usedBlocks 0 (e :: ds')
            = (usedBlocks 0 (e :: ds)).filter fun p => decide (p.1 ≠ k)) := by
  rcases gmpGetAddrFromSecureId_spec h.wf id with hzero | ⟨k, p, hp, rfl, hrun⟩
  · exact ⟨g, -EFAULT, ds, by simp [gmpFreeUmp, hzero], h, .inl rfl⟩
  obtain ⟨hmem, hmade⟩ := h.ids k p hp hid
  by_cases hpa : p.pa = 0
  · exact ⟨g, -EFAULT, ds, by simp [gmpFreeUmp, hrun, hpa], h, .inl rfl⟩
  obtain ⟨g', hfree, hw', -, -⟩ := h.wf.free p.pa
  obtain ⟨g'', ds', hfree', -, hcases⟩ := gmpFree_spec h.wf h.laid p.pa
  obtain rfl : g' = g'' := Option.some.inj (hfree.symm.trans hfree')
  have hans : gmpFreeUmp g p.secureId = some (g', 0) := by
    simp [gmpFreeUmp, hrun, hpa, hfree]
  rcases hcases with ⟨-, hno⟩ | ⟨i, q, hq, hqpa, hm⟩
  · -- `p` is the first descriptor of a block, so the block is found
    exact absurd rfl (hno p (mem_of_mem_place (mem_of_mem_usedBlocks hmem)))
  obtain rfl : i = k := h.wf.sized.index_eq hq hp hqpa
  obtain rfl : q = p := Option.some.inj (hq.symm.trans hp)
  have hne : i ≠ 0 := by
    rintro rfl
    obtain rfl : e = q := Option.some.inj (h.laid.get.symm.trans hq)
    exact hid h.noId
  obtain ⟨ds'', rfl, hg, hused⟩ := h.release hne hw' hm
  exact ⟨g', 0, ds'', hans, hg, .inr ⟨i, q, hq, hmade, hused⟩⟩

lemma Guarded.ids_claim (hsplit : e :: ds = pre ++ d :: post) (hi : stopAt Gmdesc.order 0 pre = i)
    (hcarved : Carved g g1 i d c rest post) (hfree : d.used = false) (hle : c.order ≤ d.order)
    {pid : Int} (hg' : g'.gmdesc = g1.gmdesc.set i (c.claim gmpTagUmp pid (some id)))
    (hl' : g'.Laid 0 (pre ++ c.claim gmpTagUmp pid (some id) :: (rest ++ post))) {d' : Gmdesc}
    (hd' : g'.gmdesc[k]? = some d') (hid : d'.secureId ≠ umpInvalidSecureId) :
    (k, d') ∈ usedBlocks 0 (pre ++ c.claim gmpTagUmp pid (some id) :: (rest ++ post)) ∧
      ((d.pa, id) :: made).find? (fun m => decide (m.1 = d'.pa)) = some (d'.pa, d'.secureId) := by
  have hl := h.laid
  rw [hsplit] at hl
  have hdi := (Gmp.laid_append.mp hl).2.2.get
  rw [hi] at hdi
  have hcpa : c.pa = d.pa := by rw [hcarved.head]
  obtain ⟨hold, hnew⟩ := hcarved.usedBlocks_claim (c := c.claim gmpTagUmp pid (some id)) hi hfree
    hle rfl rfl
  have hset := hd'
  rw [hg', getElem?_set] at hset
  split at hset
  · next hik =>
    split at hset
    · cases hset
      subst hik
      refine ⟨by rw [hnew]; simp, ?_⟩
      simp [Gmdesc.claim, hcpa]
    · cases hset
  next hik =>
  rcases hcarved.ids k d' hset with hinv | ⟨d0, hd0, hsame⟩
  · exact absurd hinv hid
  -- another descriptor: its block is not the free one
  obtain ⟨hmem, hmade⟩ := h.ids k d0 hd0 (hsame ▸ hid)
  have hmem' : (k, d0) ∈ usedBlocks 0
      (pre ++ c.claim gmpTagUmp pid (some id) :: (rest ++ post)) := by
    rw [hsplit, hold] at hmem
    rw [hnew]
    simp only [mem_append, mem_cons] at hmem ⊢
    exact hmem.elim .inl fun hpost => .inr (.inr hpost)
  have hget := hl'.seg.get_of_mem_place (mem_of_mem_usedBlocks hmem')
  obtain rfl : d0 = d' := Option.some.inj (hget.symm.trans hd')
  refine ⟨hmem', ?_⟩
  have hne : d.pa ≠ d0.pa := fun hpa => hik (h.wf.sized.index_eq hdi hd0 hpa)
  rw [find?_cons_of_neg (by simpa using hne)]
  exact hmade

lemma Guarded.alloc (hpa : 0 < pa) (hfit : pa + nr * unitSize ≤ wordSize) (len : Nat) (pid : Int)
    (id : Nat) :
    ∃ r ds', gmpAlloc g len gmpTagUmp pid (some id) = some r ∧
      Guarded pa nr (if r.ret = 0 then made else (r.ret, id) :: made) r.gmp e ds' ∧
      (r.ret = 0 ∨ pa + gmpSize e ≤ r.ret) := by
  obtain ⟨r, hrun, hw', hpa', hlen', -⟩ := h.wf.alloc len gmpTagUmp pid (some id)
  have hpos : 0 < g.pa := by rw [h.base]; exact hpa
  have hfit' : g.pa + g.nr * unitSize ≤ wordSize := by rw [h.base, h.nr_eq]; exact hfit
  rcases gmpAlloc_cases pid (some id) h.wf.sized h.laid len gmpTagUmp with
    ⟨-, hrun'⟩ | ⟨pre, d, post, g1, c, rest, hsplit, hd, hc, hcarved, hrun'⟩
  · obtain rfl := Option.some.inj (hrun.symm.trans hrun')
    exact ⟨_, ds, hrun, ⟨hw', h.base, h.length, h.laid.setCached none, h.used, h.order, h.noId,
      h.ids⟩, .inl rfl⟩
  have hl := h.laid
  rw [hsplit] at hl
  have hl' := hcarved.laid_claim pid (some id) hl gmpTagUmp
  obtain ⟨hfree, hle⟩ := Gmdesc.fits_iff.mp hd
  -- The first block is used, so the walk goes past it.
  obtain ⟨pre, rfl⟩ : ∃ pre', pre = e :: pre' := by
    cases pre with
    | nil =>
      obtain rfl : e = d := (cons_eq_cons.mp hsplit).1
      rw [h.used] at hfree
      cases hfree
    | cons c pre => exact ⟨pre, by rw [(cons_eq_cons.mp hsplit).1]⟩
  have hdi := (Gmp.laid_append.mp hl).2.2.get
  have hne : d.pa ≠ 0 := h.wf.sized.pa_ne_zero hpos hfit' hdi
  obtain rfl := Option.some.inj (hrun.symm.trans hrun')
  refine ⟨_, pre ++ c.claim gmpTagUmp pid (some id) :: (rest ++ post), hrun, ?_, .inr ?_⟩
  · rw [if_neg hne]
    refine ⟨hw', hpa'.trans h.base, hlen'.trans h.length, hl', h.used, h.order, h.noId,
      fun k d' hd' hvalid => ?_⟩
    exact h.ids_claim hsplit rfl hcarved hfree (hc ▸ hle) rfl hl' hd' hvalid
  have hbehind : 2 ^ e.order ≤ stopAt Gmdesc.order 0 (e :: pre) := by
    rw [stopAt_cons, zero_add]
    exact le_stopAt _ _
  have hlt := (List.getElem?_eq_some_iff.mp hdi).1
  rw [h.wf.sized.length, h.nr_eq] at hlt
  have hin := mul_lt_mul_of_pos_right hlt (show 0 < unitSize by decide)
  rw [h.wf.sized.pa _ _ hdi, h.base, wadd_of_lt (by omega)]
  exact Nat.add_le_add_left (Nat.mul_le_mul_right _ hbehind) _

/-- `GMP_FREE_UMP` of the invalid id releases the first block, when the cached descriptor does
not catch the lookup. -/
theorem Guarded.freeUmp_invalid (hpa : 0 < pa) (hfit : pa + nr * unitSize ≤ wordSize)
    (hcached : ∀ c p, g.cached = some c → g.gmdesc[c]? = some p →
      p.secureId = umpInvalidSecureId → c = 0) :
    ∃ g' ans d ds', gmpFreeUmp g umpInvalidSecureId = some (g', ans) ∧
      g'.visits = some (d :: ds') ∧ d.used = false := by
  have hs := h.wf.sized
  have hne : e.pa ≠ 0 := hs.pa_ne_zero (by rw [h.base]; exact hpa)
    (by rw [h.base, h.nr_eq]; exact hfit) h.laid.get
  have hwalk : findGmdesc g (fun p => decide (p.secureId = umpInvalidSecureId)) g.gmdesc.length 0
      = some (some 0) := by
    rw [h.laid.findGmdesc_eq (cons_ne_nil e ds) (h.laid.length_le hs)]
    simp [place, h.noId]
  have haddr : gmpGetAddrFromSecureId g umpInvalidSecureId = some e.pa := by
    unfold gmpGetAddrFromSecureId
    cases hc : g.cached with
    | none => simp [hwalk, h.laid.get]
    | some c =>
      obtain ⟨p, hp⟩ := hs.get_of_lt (h.wf.cached c hc)
      by_cases hid : p.secureId = umpInvalidSecureId
      · obtain rfl := hcached c p hc hp hid
        obtain rfl : e = p := Option.some.inj (h.laid.get.symm.trans hp)
        simp [hp, hid]
      · simp [hp, hid, hwalk, h.laid.get]
  obtain ⟨g', ds', hfree, -, ⟨-, hno⟩ | ⟨i, q, hq, hqpa, hm⟩⟩ := gmpFree_spec h.wf h.laid e.pa
  · exact absurd rfl (hno e mem_cons_self)
  obtain rfl : i = 0 := hs.index_eq hq h.laid.get hqpa
  have hs' := hm.sized (hs.write hq rfl)
  have hne' := hm.laid.ne_nil hs'
  have hvisits := hm.laid.visitsFrom_eq hne' (hm.laid.length_le hs')
  have hused := hm.used
  rw [usedBlocks_release] at hused
  cases ds' with
  | nil => exact absurd rfl hne'
  | cons d ds' =>
    refine ⟨g', 0, d, ds', by simp [gmpFreeUmp, haddr, hne, hfree], hvisits, ?_⟩
    cases hd : d.used with
    | false => rfl
    | true =>
      have hmem : (0, d) ∈ usedBlocks 0 (d :: ds') := by
        rw [usedBlocks_cons_used hd]
        exact mem_cons_self
      rw [hused, mem_filter] at hmem
      exact absurd hmem.2 (by simp)

end

end

/-! ### Runs -/

/-- A call that does not free the invalid id. -/
def ValidStep (c : Ioctl) (s s' : UmpState) : Prop := UmpStep c s s' ∧ c.ValidId

section
variable {pa nr : Nat} (hpa : 0 < pa) (hpos : 0 < nr) (hlen : nr * unitSize < 2 ^ 31)
  (hfit : pa + nr * unitSize ≤ wordSize)
include hpa hpos hlen hfit

omit hpa in
lemma guarded_started (h : UmpStarted pa nr s) : ∃ e ds, Guarded pa nr s.made s.gmp e ds := by
  obtain ⟨⟨mem, cached, pid, -, hreset⟩, hmade⟩ := h
  have hunit : 0 < nr * unitSize := mul_pos hpos (by decide)
  have hword : pa < wordSize := by omega
  have hp := rawPool_poolable hword hpos hlen mem cached
  obtain ⟨g, e, ds, hrun, hr⟩ := gmpReset_spec hp pid
  obtain rfl : s.gmp = g := Option.some.inj (hreset.symm.trans hrun)
  have hnr : (rawPool pa nr mem cached).nr = nr := Nat.mul_div_cancel nr (by decide)
  refine ⟨e, ds, ⟨hr.sized, fun c hc => ?_, _, hr.laid⟩, hr.pa, hr.len, hr.laid, hr.used,
    by rw [hr.order, hnr], hr.noIds 0 e hr.laid.get, fun k d hd hid => ?_⟩
  · rw [hr.cached] at hc
    cases hc
    exact hr.sized.pos
  · exact absurd (hr.noIds k d hd) hid

omit hpos hlen in
lemma guarded_step {c : Ioctl} {s' : UmpState} (hstep : ValidStep c s s')
    (h : Guarded pa nr s.made s.gmp e ds) : ∃ ds', Guarded pa nr s'.made s'.gmp e ds' := by
  obtain ⟨⟨-, hexec⟩, hvalid⟩ := hstep
  cases c with
  | allocUmp len pid mali =>
    cases mali with
    | none =>
      cases hexec
      exact ⟨ds, h⟩
    | some id =>
      obtain ⟨r, ds', hrun, hg, -⟩ := h.alloc hpa hfit len pid id
      cases hid : gmpGetSecureId r.gmp r.ret with
      | none => simp [Ioctl.exec, gmpAllocUmp, hrun, hid] at hexec
      | some ans =>
        simp only [Ioctl.exec, gmpAllocUmp, hrun, hid, Option.bind_eq_bind, Option.bind_some,
          Option.pure_def, Option.some.injEq] at hexec
        subst hexec
        exact ⟨ds', hg⟩
  | freeUmp id =>
    obtain ⟨g', ans, ds', hrun, hg, -⟩ := h.freeUmp hvalid
    simp only [Ioctl.exec, hrun, Option.bind_eq_bind, Option.bind_some, Option.pure_def,
      Option.some.injEq] at hexec
    subst hexec
    exact ⟨ds', hg⟩

lemma guarded_of_reach (h : Reach (UmpStarted pa nr) ValidStep s) :
    ∃ e ds, Guarded pa nr s.made s.gmp e ds := by
  refine Reach.invariant (fun s => ∃ e ds, Guarded pa nr s.made s.gmp e ds) ?_ ?_ h
  · intro s hs
    exact guarded_started hpos hlen hfit hs
  · rintro c s s' ⟨e, ds, hg⟩ hstep
    obtain ⟨ds', hg'⟩ := guarded_step hpa hfit hstep hg
    exact ⟨e, ds', hg'⟩

end

/-- If the invalid id is never freed, the first block holds the descriptors, and a used block that
`GMP_FREE_UMP` releases is one that the latest `GMP_ALLOC_UMP` of its address created with this id.
The invalid id releases the first block, unless the cached descriptor is another one with it. -/
theorem freeUmp_own {pa nr : Nat} (hpa : 0 < pa) (hpos : 0 < nr) (hlen : nr * unitSize < 2 ^ 31)
    (hfit : pa + nr * unitSize ≤ wordSize) {s : UmpState}
    (h : Reach (UmpStarted pa nr) ValidStep s) :
    ∃ e ds, s.gmp.visits = some (e :: ds) ∧ e.used = true ∧ e.pa = pa ∧
      sizeofGmdesc * nr ≤ gmpSize e ∧
      (∀ len pid id, ∃ r ans, gmpAllocUmp s.gmp len pid (some id) = some (some r, ans) ∧
        (r.ret = 0 ∨ pa + gmpSize e ≤ r.ret)) ∧
      (∀ id, id ≠ umpInvalidSecureId → ∃ g' ans ds', gmpFreeUmp s.gmp id = some (g', ans) ∧
        g'.visits = some (e :: ds') ∧ ∀ d ∈ ds, d.used = true → d ∈ ds' ∨
          s.made.find? (fun m => decide (m.1 = d.pa)) = some (d.pa, id)) ∧
      ((∀ c p, s.gmp.cached = some c → s.gmp.gmdesc[c]? = some p → p.secureId = umpInvalidSecureId →
        c = 0) →
        ∃ g' ans d ds', gmpFreeUmp s.gmp umpInvalidSecureId = some (g', ans) ∧
          g'.visits = some (d :: ds') ∧ d.used = false) := by
  have hunit : 0 < nr * unitSize := mul_pos hpos (by decide)
  have hword : pa < wordSize := by omega
  obtain ⟨e, ds, hg⟩ := guarded_of_reach hpa hpos hlen hfit h
  have hs := hg.wf.sized
  have hsize : sizeofGmdesc * nr < wordSize := by
    simp only [sizeofGmdesc, unitSize, wordSize] at hlen ⊢
    omega
  refine ⟨e, ds, hg.laid.visitsFrom_eq (cons_ne_nil e ds) (hg.laid.length_le hs), hg.used,
    ?_, ?_, fun len pid id => ?_, fun id hid => ?_, hg.freeUmp_invalid hpa hfit⟩
  · rw [hs.pa 0 e hg.laid.get, hg.base]
    exact wadd_of_lt hword
  · rw [gmpSize, gmpNr, hg.order]
    exact (gmpGetOrder_spec hsize).1
  · obtain ⟨r, ds', hrun, hg', hret⟩ := hg.alloc hpa hfit len pid id
    obtain ⟨ans, hans⟩ : ∃ ans, gmpGetSecureId r.gmp r.ret = some ans := by
      rcases freeTarget_spec hg'.wf hg'.laid r.ret with ⟨ht, -⟩ | ⟨i, p, ht, hp, -⟩
      · exact ⟨_, by simp [gmpGetSecureId, ht]; rfl⟩
      · exact ⟨p.secureId, by simp [gmpGetSecureId, ht, hp]⟩
    exact ⟨r, ans, by simp [gmpAllocUmp, hrun, hans], hret⟩
  obtain ⟨g', ans, ds', hrun, hg', hused⟩ := hg.freeUmp hid
  have hs' := hg'.wf.sized
  refine ⟨g', ans, ds', hrun,
    hg'.laid.visitsFrom_eq (cons_ne_nil e ds') (hg'.laid.length_le hs'), ?_⟩
  intro d hd hdused
  obtain ⟨k, hk⟩ : ∃ k, (k, d) ∈ place Gmdesc.order (0 + 2 ^ e.order) ds := exists_mem_place _ hd
  have hk0 : k ≠ 0 := by
    have hle : 0 + 2 ^ e.order ≤ k := le_of_mem_place hk
    have := Nat.two_pow_pos e.order
    omega
  have hmem : (k, d) ∈ usedBlocks 0 (e :: ds) := by
    rw [usedBlocks_cons_used hg.used]
    exact mem_cons_of_mem _ (mem_filter.mpr ⟨hk, hdused⟩)
  have hstay : (k, d) ∈ usedBlocks 0 (e :: ds') → d ∈ ds' := by
    intro hmem'
    rw [usedBlocks_cons_used hg.used] at hmem'
    rcases mem_cons.mp hmem' with heq | hmem'
    · exact absurd (congrArg Prod.fst heq) hk0
    · exact mem_of_mem_place (mem_of_mem_usedBlocks hmem')
  rcases hused with heq | ⟨j, p, hp, hmade, hfilter⟩
  · exact .inl (hstay (heq ▸ hmem))
  by_cases hkj : k = j
  · -- the block that is released
    have hget := hg.laid.seg.get_of_mem_place (mem_of_mem_usedBlocks hmem)
    rw [hkj] at hget
    obtain rfl : p = d := Option.some.inj (hp.symm.trans hget)
    exact .inr hmade
  · refine .inl (hstay ?_)
    rw [hfilter]
    exact mem_filter.mpr ⟨hmem, by simpa using hkj⟩

def smallUmp : UmpState := { gmp := smallPool, made := [] }

lemma started_smallUmp : UmpStarted 0x1000000 5 smallUmp :=
  ⟨⟨smallMem, none, 3, rfl, by decide +kernel⟩, rfl⟩

/-- Two blocks are created with the ids 7 and 8. Freeing 8 keeps the one of 7. -/
theorem freeUmp_own_two : ∃ s, Reach (UmpStarted 0x1000000 5) ValidStep s ∧
    s.made.map Prod.snd = [8, 7] ∧
      ∃ e ds, s.gmp.visits = some (e :: ds) ∧ e.used = true ∧ e.pa = 0x1000000 ∧
        ∃ g' ans ds', gmpFreeUmp s.gmp 8 = some (g', ans) ∧ g'.visits = some (e :: ds') ∧
          ∀ d ∈ ds, d.used = true → d ∈ ds' ∨ s.made.find? (fun m => decide (m.1 = d.pa)) =
            some (d.pa, 8) := by
  have hseven : ValidStep (.allocUmp 100 3 (some 7)) smallUmp
      (((Ioctl.allocUmp 100 3 (some 7)).exec smallUmp).getD smallUmp) :=
    ⟨⟨show some 7 ≠ some umpInvalidSecureId by decide, by decide +kernel⟩, trivial⟩
  have height : ValidStep (.allocUmp 100 4 (some 8))
      (((Ioctl.allocUmp 100 3 (some 7)).exec smallUmp).getD smallUmp)
      ((([.allocUmp 100 3 (some 7), .allocUmp 100 4 (some 8)] : List Ioctl).foldlM
        Ioctl.exec smallUmp).getD smallUmp) :=
    ⟨⟨show some 8 ≠ some umpInvalidSecureId by decide, by decide +kernel⟩, trivial⟩
  have hreach := Reach.next _ (Reach.next _ (Reach.start started_smallUmp) hseven) height
  obtain ⟨e, ds, hvisits, hused, hpa, -, -, hfree, -⟩ :=
    freeUmp_own (by decide) (by decide) (by decide) (by decide) hreach
  exact ⟨_, hreach, by decide +kernel, e, ds, hvisits, hused, hpa, hfree 8 (by decide)⟩

/-- The invalid id is freed. Then the array of the descriptors is free, and the next block that
is created is the array. -/
theorem freeUmp_invalid_takes_array : ∃ s s' : UmpState, Reach (UmpStarted 0x1000000 5) UmpStep s ∧
      (s.gmp.visits.map fun ds => ds.map fun d => (d.pa, d.used))
        = some [(0x1000000, false), (0x1040000, false)] ∧
      UmpStep (.allocUmp 100 3 (some 7)) s s' ∧ s'.made = [(0x1000000, 7)] := by
  have hfree : UmpStep (.freeUmp umpInvalidSecureId) smallUmp
      (((Ioctl.freeUmp umpInvalidSecureId).exec smallUmp).getD smallUmp) :=
    ⟨trivial, by decide +kernel⟩
  refine ⟨_, (([.freeUmp umpInvalidSecureId, .allocUmp 100 3 (some 7)] : List Ioctl).foldlM
    Ioctl.exec smallUmp).getD smallUmp, Reach.next _ (Reach.start started_smallUmp) hfree,
    by decide +kernel, ⟨?_, by decide +kernel⟩, by decide +kernel⟩
  show some 7 ≠ some umpInvalidSecureId
  decide

end Wm8850.Ge
