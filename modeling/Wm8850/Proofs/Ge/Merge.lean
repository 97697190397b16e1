import Wm8850.Ge.Pool
import Wm8850.Lib.Buddy

/-! # The blocks behind the descriptor array, and merging

`Gmp.Laid g i ds`: the units from `i` on are cut into aligned blocks with the descriptors `ds`, and
`tail` marks the last. `Gmp.Sized` is what no call changes: the number of descriptors and their
addresses. `Merged g g' i ds ds'` is what `gmp_merge` at the unit `i` does. The call for the next
block has one block less, and so has the loop after a join: the number of blocks bounds the fuel. -/

namespace Wm8850.Ge

open Lib List

structure Gmp.Sized (g : Gmp) : Prop where
  length : g.gmdesc.length = g.nr
  pos : 0 < g.nr
  /-- `len` is an `int` -/
  bound : g.nr < 2 ^ 15
  pa : ∀ k d, g.gmdesc[k]? = some d → d.pa = wadd g.pa (k * unitSize)

def Gmp.Seg (g : Gmp) : Nat → List Gmdesc → Prop
  | _, [] => True
  | i, d :: ds =>
    g.gmdesc[i]? = some d ∧ d.tail = decide (i + 2 ^ d.order = g.nr) ∧
      g.Seg (i + 2 ^ d.order) ds

structure Gmp.Laid (g : Gmp) (i : Nat) (ds : List Gmdesc) : Prop where
  cut : Cut Gmdesc.order i ds g.nr
  seg : g.Seg i ds

/-! ### Writes -/

variable {k i fuel : Nat} {g g' : Gmp} {ds es : List Gmdesc} {d : Gmdesc}

lemma map_set_of_eq {α β : Type} (f : α → β) {l : List α} {d : α}
    (hd : l[k]? = some d) (e : α) (he : f e = f d) : (l.set k e).map f = l.map f := by
  rw [map_set, he]
  refine ext_getElem? fun m => ?_
  rw [getElem?_set]
  split
  · next hkm =>
    subst hkm
    have hk := (List.getElem?_eq_some_iff.mp hd).1
    rw [List.length_map, if_pos hk, List.getElem?_map, hd]
    rfl
  · rfl

lemma Gmp.Sized.of_pas (hs : g.Sized)
    (hpas : g'.gmdesc.map Gmdesc.pa = g.gmdesc.map Gmdesc.pa) (hpa : g'.pa = g.pa)
    (hlen : g'.len = g.len) : g'.Sized := by
  have hnr : g'.nr = g.nr := by rw [Gmp.nr, Gmp.nr, hlen]
  refine ⟨?_, by rw [hnr]; exact hs.pos, by rw [hnr]; exact hs.bound, fun k d' hd' => ?_⟩
  · have hl := congrArg List.length hpas
    simp only [List.length_map] at hl
    rw [hl, hs.length, hnr]
  have hk := congrArg (fun l => l[k]?) hpas
  simp only [getElem?_map, hd'] at hk
  obtain ⟨d, hd, hdd⟩ := Option.map_eq_some_iff.mp hk.symm
  rw [← hdd, hpa]
  exact hs.pa k d hd

/-! ### Parts of the pool -/

lemma Gmp.seg_append : g.Seg i (ds ++ es) ↔ g.Seg i ds ∧ g.Seg (stopAt Gmdesc.order i ds) es := by
  induction ds generalizing i with
  | nil => simp [Gmp.Seg]
  | cons d ds ih =>
    simp [Gmp.Seg, ih, and_assoc]

lemma Gmp.Seg.congr {j : Nat} (h : g.Seg i ds) (hlen : g'.nr = g.nr)
    (hj : stopAt Gmdesc.order i ds ≤ j)
    (hget : ∀ k, i ≤ k → k < j → g'.gmdesc[k]? = g.gmdesc[k]?) : g'.Seg i ds := by
  induction ds generalizing i with
  | nil => trivial
  | cons d ds ih =>
    rw [stopAt_cons] at hj
    have hpos := Nat.two_pow_pos d.order
    have hle : i + 2 ^ d.order ≤ j := le_trans (le_stopAt _ _) hj
    refine ⟨?_, ?_, ih h.2.2 hj fun k hk hkj => hget k (by omega) hkj⟩
    · rw [hget i (le_refl i) (by omega)]
      exact h.1
    · rw [hlen]
      exact h.2.1

lemma Gmp.laid_append : g.Laid i (ds ++ es) ↔ Cut Gmdesc.order i ds (stopAt Gmdesc.order i ds) ∧
    g.Seg i ds ∧
      g.Laid (stopAt Gmdesc.order i ds) es := by
  constructor
  · intro h
    have ht := cut_append.mp h.cut
    have hs := Gmp.seg_append.mp h.seg
    exact ⟨ht.1, hs.1, ht.2, hs.2⟩
  · rintro ⟨ht, hs, h⟩
    exact ⟨cut_append.mpr ⟨ht, h.cut⟩, Gmp.seg_append.mpr ⟨hs, h.seg⟩⟩

lemma Gmp.Laid.append_left {pre ds' : List Gmdesc} (h : g.Laid i (pre ++ ds)) (hlen : g'.nr = g.nr)
    (hget : ∀ k < stopAt Gmdesc.order i pre, g'.gmdesc[k]? = g.gmdesc[k]?)
    (h' : g'.Laid (stopAt Gmdesc.order i pre) ds') : g'.Laid i (pre ++ ds') := by
  obtain ⟨hcut, hseg, -⟩ := Gmp.laid_append.mp h
  refine Gmp.laid_append.mpr ⟨hcut, ?_, h'⟩
  exact hseg.congr hlen (le_refl _) fun k _ hk => hget k hk

lemma Gmp.Laid.tail (h : g.Laid i (d :: ds)) : g.Laid (i + 2 ^ d.order) ds := ⟨h.cut.2, h.seg.2.2⟩

lemma Gmp.Laid.get (h : g.Laid i (d :: ds)) : g.gmdesc[i]? = some d := h.seg.1

lemma Gmp.Laid.length_le (hs : g.Sized) (h : g.Laid i ds) : ds.length ≤ g.gmdesc.length := by
  have := h.cut.length_le
  rw [hs.length]
  omega

lemma Gmp.Laid.nil_iff (h : g.Laid i (d :: ds)) : ds = [] ↔ i + 2 ^ d.order = g.nr := by
  constructor
  · rintro rfl
    exact h.cut.2
  · intro hend
    have hlen := h.cut.2.length_le
    exact length_eq_zero_iff.mp (by omega)

/-! ### One step of a walk -/

lemma Gmp.Laid.next (h : g.Laid i (d :: ds)) :
    nextGmdesc g i = some (if ds = [] then none else some (i + 2 ^ d.order)) := by
  have htail : d.tail = decide (ds = []) := by
    rw [h.seg.2.1]
    exact decide_eq_decide.mpr h.nil_iff.symm
  simp only [nextGmdesc, h.get, Option.bind_eq_bind, Option.bind_some, htail, decide_eq_true_eq]
  rfl

lemma Gmp.Laid.next_last (h : g.Laid i [d]) : nextGmdesc g i = some none := by
  rw [h.next, if_pos rfl]

lemma Gmp.Laid.next_cons {e : Gmdesc}
    (h : g.Laid i (d :: e :: ds)) : nextGmdesc g i = some (some (i + 2 ^ d.order)) := by
  rw [h.next, if_neg (cons_ne_nil e ds)]

/-! ### Whole walks -/

lemma Gmp.Laid.visitsFrom_eq (h : g.Laid i ds)
    (hne : ds ≠ []) (hfuel : ds.length ≤ fuel) : visitsFrom g fuel i = some ds := by
  induction ds generalizing i fuel with
  | nil => exact absurd rfl hne
  | cons d ds ih =>
    cases fuel with
    | zero => simp at hfuel
    | succ fuel =>
      cases ds with
      | nil => simp [visitsFrom, h.get, h.next_last]
      | cons e ds =>
        have hrec := ih h.tail (cons_ne_nil e ds) (by simpa using hfuel)
        simp [visitsFrom, h.get, h.next_cons, hrec]

lemma Gmp.Laid.findGmdesc_eq {test : Gmdesc → Bool}
    (h : g.Laid i ds) (hne : ds ≠ []) (hfuel : ds.length ≤ fuel) : findGmdesc g test fuel i
      = some (((place Gmdesc.order i ds).find? fun p => test p.2).map Prod.fst) := by
  induction ds generalizing i fuel with
  | nil => exact absurd rfl hne
  | cons d ds ih =>
    cases fuel with
    | zero => simp at hfuel
    | succ fuel =>
      rw [place, findGmdesc, h.get]
      by_cases ht : test d = true
      · simp [ht]
      cases ds with
      | nil => simp [ht, h.next_last, place]
      | cons e ds =>
        have hrec := ih h.tail (cons_ne_nil e ds) (by simpa using hfuel)
        rw [find?_cons_of_neg (by simpa using ht), ← hrec]
        simp [ht, h.next_cons]

lemma Gmp.Laid.ne_nil (hs : g.Sized) (hl : g.Laid 0 ds) : ds ≠ [] := by
  rintro rfl
  have hpos := hs.pos
  have hnr : 0 = g.nr := hl.cut
  omega

lemma Gmp.Laid.findGmdesc_cases (hs : g.Sized) (hl : g.Laid 0 ds) (test : Gmdesc → Bool) :
    (findGmdesc g test g.gmdesc.length 0 = some none ∧ ∀ d ∈ ds, test d = false) ∨
      ∃ pre d post, ds = pre ++ d :: post ∧ test d = true ∧ (∀ c ∈ pre, test c = false) ∧
        findGmdesc g test g.gmdesc.length 0 = some (some (stopAt Gmdesc.order 0 pre)) := by
  rw [hl.findGmdesc_eq (hl.ne_nil hs) (hl.length_le hs)]
  rcases split_at_first test ds with hno | ⟨pre, d, post, rfl, hd, hpre⟩
  · exact .inl ⟨by rw [find?_place_none hno]; rfl, hno⟩
  · exact .inr ⟨pre, d, post, rfl, hd, hpre, by rw [find?_place_append hpre hd]; rfl⟩

/-! ### Writes that keep the blocks -/

/-- The descriptors after a write to the unit `k`. A unit inside a block does not show. -/
def writeAt (k : Nat) (f : Gmdesc → Gmdesc) : Nat → List Gmdesc → List Gmdesc
  | _, [] => []
  | i, d :: ds => (if i = k then f d else d) :: writeAt k f (i + 2 ^ d.order) ds

lemma Gmp.Laid.write (h : g.Laid i ds) {p : Gmdesc}
    (hp : g.gmdesc[k]? = some p) {f : Gmdesc → Gmdesc} (horder : ∀ d, (f d).order = d.order)
    (htail : ∀ d, (f d).tail = d.tail) : (g.set k (f p)).Laid i (writeAt k f i ds) := by
  induction ds generalizing i with
  | nil => exact ⟨h.cut, trivial⟩
  | cons d ds ih =>
    have hrest := ih h.tail
    have hk := (List.getElem?_eq_some_iff.mp hp).1
    by_cases hik : i = k
    · subst hik
      obtain rfl : d = p := Option.some.inj (h.get.symm.trans hp)
      rw [writeAt, if_pos rfl]
      refine ⟨⟨?_, ?_⟩, ?_, ?_, ?_⟩
      · rw [horder]
        exact h.cut.1
      · rw [horder]
        exact hrest.cut
      · exact getElem?_set_self hk
      · rw [horder, htail]
        exact h.seg.2.1
      · rw [horder]
        exact hrest.seg
    rw [writeAt, if_neg hik]
    refine ⟨⟨h.cut.1, hrest.cut⟩, ?_, h.seg.2.1, hrest.seg⟩
    show (g.gmdesc.set k (f p))[i]? = some d
    rw [getElem?_set_ne (fun heq => hik heq.symm)]
    exact h.get

lemma writeAt_of_lt (f : Gmdesc → Gmdesc) (hki : k < i) (ds : List Gmdesc) :
    writeAt k f i ds = ds := by
  induction ds generalizing i with
  | nil => rfl
  | cons d ds ih =>
    rw [writeAt, if_neg (by omega), ih (lt_of_lt_of_le hki (Nat.le_add_right _ _))]

lemma writeAt_append (f : Gmdesc → Gmdesc) (pre : List Gmdesc) (d : Gmdesc) (post : List Gmdesc) :
    writeAt (stopAt Gmdesc.order i pre) f i (pre ++ d :: post) = pre ++ f d :: post := by
  induction pre generalizing i with
  | nil =>
    have hpos := Nat.two_pow_pos d.order
    rw [stopAt_nil, nil_append, writeAt, if_pos rfl, writeAt_of_lt f (by omega)]
    rfl
  | cons c pre ih =>
    have hne : i ≠ stopAt Gmdesc.order i (c :: pre) := by
      have hlt : i < stopAt Gmdesc.order i (c :: pre) := lt_stopAt i (cons_ne_nil c pre)
      omega
    rw [cons_append, writeAt, if_neg hne, stopAt_cons, ih]
    rfl

lemma Gmp.Laid.setCached (h : g.Laid i ds) (c : Option Nat) :
    ({ g with cached := c } : Gmp).Laid i ds :=
  ⟨h.cut, h.seg.congr rfl (le_refl _) fun _ _ _ => rfl⟩

lemma Gmp.Sized.write (hs : g.Sized) {p e : Gmdesc}
    (hp : g.gmdesc[k]? = some p) (he : e.pa = p.pa) : (g.set k e).Sized :=
  hs.of_pas (map_set_of_eq Gmdesc.pa hp e he) rfl rfl

/-! ### Alignment -/

section
variable (hs : g.Sized) {first : Gmdesc} (hd : g.gmdesc[i]? = some d)
  (hfirst : g.gmdesc[0]? = some first)
include hs hd hfirst

lemma Gmp.Sized.offset : wsub d.pa first.pa = i * unitSize := by
  have hi : i < g.gmdesc.length := (List.getElem?_eq_some_iff.mp hd).1
  have hbound := hs.bound
  rw [hs.length] at hi
  rw [hs.pa i d hd, hs.pa 0 first hfirst, wsub_wadd_wadd (by omega)]
  · simp
  · simp only [unitSize, wordSize]
    omega

/-- The test of `gmp_merge`: the block is not the left one of a pair. -/
theorem Gmp.Sized.unaligned_iff
    (hdvd : 2 ^ d.order ∣ i) : unaligned d first = true ↔ ¬ 2 ^ (d.order + 1) ∣ i := by
  have hdiv : i * unitSize / (2 ^ d.order * unitSize) = i / 2 ^ d.order :=
    Nat.mul_div_mul_right _ _ (by decide)
  obtain ⟨q, rfl⟩ := hdvd
  unfold unaligned
  rw [hs.offset hd hfirst, hdiv, Nat.mul_div_cancel_left q (Nat.two_pow_pos _), Nat.pow_succ,
    Nat.mul_dvd_mul_iff_left (Nat.two_pow_pos _), decide_eq_true_iff]
  omega

end

lemma Gmp.Sized.first (hs : g.Sized) : ∃ d, g.gmdesc[0]? = some d := by
  have hpos := hs.pos
  rw [← hs.length] at hpos
  exact ⟨g.gmdesc[0], getElem?_eq_getElem hpos⟩

variable {i fuel : Nat} {d p c e : Gmdesc} {g g' : Gmp} {ds ds' pre : List Gmdesc}

def Gmdesc.free (d : Gmdesc) : Bool := !d.used

/-- The fields of a descriptor that merging leaves alone. -/
def Gmdesc.core (d : Gmdesc) : Gmdesc := { d with order := 0, tail := false }

def usedBlocks (i : Nat) (ds : List Gmdesc) : List (Nat × Gmdesc) :=
  (place Gmdesc.order i ds).filter fun p => p.2.used

/-- No two free blocks can be merged. -/
abbrev SettledFrom (i : Nat) (ds : List Gmdesc) : Prop := Settled Gmdesc.order Gmdesc.free i ds

structure Merged (g g' : Gmp) (i : Nat) (ds ds' : List Gmdesc) : Prop where
  laid : g'.Laid i ds'
  core : g'.gmdesc.map Gmdesc.core = g.gmdesc.map Gmdesc.core
  below : ∀ k < i, g'.gmdesc[k]? = g.gmdesc[k]?
  used : usedBlocks i ds' = usedBlocks i ds
  length : ds'.length ≤ ds.length
  pa : g'.pa = g.pa
  len : g'.len = g.len
  cached : g'.cached = g.cached

/-! ### The fields that stay -/

lemma exists_get_of_core {l l' : List Gmdesc} (h : l'.map Gmdesc.core = l.map Gmdesc.core)
    {k : Nat} (hd : l[k]? = some d) : ∃ d', l'[k]? = some d' ∧ d'.core = d.core := by
  have hk := congrArg (fun l => l[k]?) h
  simp only [getElem?_map, hd] at hk
  obtain ⟨d', hd', hcore⟩ := Option.map_eq_some_iff.mp hk
  exact ⟨d', hd', hcore⟩

lemma Gmp.Sized.of_core (hs : g.Sized)
    (hcore : g'.gmdesc.map Gmdesc.core = g.gmdesc.map Gmdesc.core) (hpa : g'.pa = g.pa)
    (hlen : g'.len = g.len) : g'.Sized := by
  refine hs.of_pas ?_ hpa hlen
  have hmap := congrArg (map Gmdesc.pa) hcore
  rw [map_map, map_map] at hmap
  exact hmap

lemma Merged.sized (h : Merged g g' i ds ds') (hs : g.Sized) : g'.Sized :=
  hs.of_core h.core h.pa h.len

lemma Merged.nr (h : Merged g g' i ds ds') : g'.nr = g.nr := by rw [Gmp.nr, Gmp.nr, h.len]

lemma Merged.refl (h : g.Laid i ds) : Merged g g i ds ds :=
  ⟨h, rfl, fun _ _ => rfl, rfl, le_refl _, rfl, rfl, rfl⟩

lemma Merged.trans {g'' : Gmp} {ds'' : List Gmdesc} (h : Merged g g' i ds ds')
    (h' : Merged g' g'' i ds' ds'') : Merged g g'' i ds ds'' where
  laid := h'.laid
  core := h'.core.trans h.core
  below k hk := (h'.below k hk).trans (h.below k hk)
  used := h'.used.trans h.used
  length := le_trans h'.length h.length
  pa := h'.pa.trans h.pa
  len := h'.len.trans h.len
  cached := h'.cached.trans h.cached

lemma Merged.cons (h : Merged g g' (i + 2 ^ d.order) ds ds') (hl : g.Laid i (d :: ds)) :
    Merged g g' i (d :: ds) (d :: ds') := by
  have hpos := Nat.two_pow_pos d.order
  refine ⟨⟨⟨hl.cut.1, h.laid.cut⟩, ?_, ?_, h.laid.seg⟩, h.core, fun k hk => h.below k (by omega),
    ?_, Nat.succ_le_succ h.length, h.pa, h.len, h.cached⟩
  · rw [h.below i (by omega)]
    exact hl.get
  · rw [h.nr]
    exact hl.seg.2.1
  · have hused := h.used
    unfold usedBlocks at hused ⊢
    rw [place, place, filter_cons, filter_cons, hused]

lemma Merged.head {d' : Gmdesc}
    (h : Merged g g' i (d :: ds) (d' :: ds')) (hl : g.Laid i (d :: ds)) : d'.core = d.core := by
  obtain ⟨e, he, hcore⟩ := exists_get_of_core h.core hl.get
  rw [h.laid.get] at he
  rw [Option.some.inj he]
  exact hcore

/-! ### One join -/

def Gmp.join (g : Gmp) (i j : Nat) (d p : Gmdesc) : Gmp :=
  (g.set i { d with order := d.order + 1, tail := p.tail }).set j { p with tail := false }

lemma merged_join (hl : g.Laid i (d :: p :: ds))
    (hd : d.free = true) (hp : p.free = true) (horder : p.order = d.order)
    (hdvd : 2 ^ (d.order + 1) ∣ i) : Merged g (g.join i (i + 2 ^ d.order) d p) i (d :: p :: ds)
      ({ d with order := d.order + 1, tail := p.tail } :: ds) := by
  have hpow : i + 2 ^ (d.order + 1) = i + 2 ^ d.order + 2 ^ p.order := by
    rw [horder]
    omega
  have hi := (List.getElem?_eq_some_iff.mp hl.get).1
  have hj := hl.tail.get
  have hget : ∀ k, k ≠ i → k ≠ i + 2 ^ d.order → (g.join i (i + 2 ^ d.order) d p).gmdesc[k]? =
      g.gmdesc[k]? := by
    intro k hki hkj
    show ((g.gmdesc.set i _).set _ _)[k]? = _
    rw [getElem?_set_ne hkj.symm, getElem?_set_ne hki.symm]
  refine ⟨⟨⟨hdvd, ?_⟩, ?_, ?_, ?_⟩, ?_, fun k hk => hget k (by omega) (by omega), ?_, ?_, rfl, rfl,
    rfl⟩
  · rw [hpow]
    exact hl.tail.cut.2
  · show ((g.gmdesc.set i _).set _ _)[i]? = _
    rw [getElem?_set_ne (by omega), getElem?_set_self hi]
  · rw [hpow]
    exact hl.tail.seg.2.1
  · rw [hpow]
    refine hl.tail.seg.2.2.congr rfl (le_of_eq hl.tail.cut.2.stopAt_eq) fun k hk _ => ?_
    exact hget k (by omega) (by omega)
  · have hj' : (g.gmdesc.set i { d with order := d.order + 1, tail := p.tail })[i + 2 ^ d.order]? =
      some p := by
      rw [getElem?_set_ne (by omega)]
      exact hj
    exact (map_set_of_eq Gmdesc.core hj' { p with tail := false } rfl).trans
      (map_set_of_eq Gmdesc.core hl.get _ rfl)
  · simp only [Gmdesc.free, Bool.not_eq_true'] at hd hp
    unfold usedBlocks
    rw [place, place, place]
    rw [filter_cons_of_neg (by simp [hd]), filter_cons_of_neg (by simp [hd]),
      filter_cons_of_neg (by simp [hp])]
    rw [hpow]
  · simp

/-! ### The recursion of `gmp_merge` -/

abbrev TopmostFrom (i : Nat) (d : Gmdesc) (ds : List Gmdesc) : Prop :=
  Topmost Gmdesc.order Gmdesc.free i d ds

lemma freeEnd_of_used {n : Nat} (h : usedBlocks i ds' = usedBlocks i ds)
    (hc : Cut Gmdesc.order i ds n) (hc' : Cut Gmdesc.order i ds' n) :
    freeEnd Gmdesc.order Gmdesc.free i ds' = freeEnd Gmdesc.order Gmdesc.free i ds := by
  have hhead := congrArg head? h
  rw [usedBlocks, usedBlocks, head?_filter] at hhead
  simp [freeEnd, Gmdesc.free, hhead, hc.stopAt_eq, hc'.stopAt_eq]

lemma Merged.freeEnd_eq (h : Merged g g' i ds ds') (hl : g.Laid i ds) :
    freeEnd Gmdesc.order Gmdesc.free i ds' = freeEnd Gmdesc.order Gmdesc.free i ds :=
  freeEnd_of_used h.used hl.cut (h.nr ▸ h.laid.cut)

structure MergeResult (g g' : Gmp) (i : Nat) (d : Gmdesc) (ds : List Gmdesc) (d' : Gmdesc)
    (ds' : List Gmdesc) : Prop where
  merged : Merged g g' i (d :: ds) (d' :: ds')
  top : TopmostFrom i d' ds'
  settled : SettledFrom (i + 2 ^ d.order) ds → SettledFrom (i + 2 ^ d'.order) ds'

lemma MergeResult.refl (hl : g.Laid i (d :: ds)) (htop : TopmostFrom i d ds) :
    MergeResult g g i d ds d ds := ⟨Merged.refl hl, htop, id⟩

def MergeSpec (fuel : Nat) : Prop :=
  ∀ (g : Gmp) (i : Nat) (d : Gmdesc) (ds : List Gmdesc), g.Sized → g.Laid i (d :: ds) →
    (d :: ds).length ≤ fuel →
    ∃ g' ret d' ds', gmpMerge fuel g i = some (g', ret) ∧ MergeResult g g' i d ds d' ds' ∧
      (ret = 0 → ds'.length < ds.length)

lemma whileZero_spec (hspec : MergeSpec fuel) :
    ∀ (turns : Nat) (g : Gmp) (i : Nat) (d : Gmdesc) (ds : List Gmdesc), g.Sized →
      g.Laid i (d :: ds) → (d :: ds).length ≤ fuel → (d :: ds).length ≤ turns →
      ∃ g' d' ds', whileZero (fun g => gmpMerge fuel g i) turns g = some g' ∧
        MergeResult g g' i d ds d' ds' := by
  intro turns
  induction turns with
  | zero =>
    intro g i d ds _ _ _ hturns
    simp at hturns
  | succ turns ih =>
    intro g i d ds hs hl hfuel hturns
    obtain ⟨g1, ret, d1, ds1, hrun, hres, hshort⟩ := hspec g i d ds hs hl hfuel
    by_cases hret : ret = 0
    · simp only [length_cons] at hfuel hturns
      obtain ⟨g', d', ds', hloop, hres'⟩ := ih g1 i d1 ds1 (hres.merged.sized hs)
        hres.merged.laid (by simp only [length_cons]; omega) (by simp only [length_cons]; omega)
      refine ⟨g', d', ds', by simp [whileZero, hrun, hret, hloop], ?_⟩
      exact ⟨hres.merged.trans hres'.merged, hres'.top, fun h => hres'.settled (hres.settled h)⟩
    · exact ⟨g1, d1, ds1, by simp [whileZero, hrun, hret], hres⟩

lemma gmpMerge_join {g1 : Gmp} {j : Nat} {first d1 p1 : Gmdesc} {ret : Int}
    (hfirst : g.gmdesc[0]? = some first) (hd : g.gmdesc[i]? = some d) (hused : ¬ d.used = true)
    (hun : unaligned d first = false) (hnext : nextGmdesc g i = some (some j))
    (hp : g.gmdesc[j]? = some p) (hpused : ¬ p.used = true)
    (hrun : gmpMerge fuel g j = some (g1, ret)) (hd1 : g1.gmdesc[i]? = some d1)
    (hp1 : g1.gmdesc[j]? = some p1) : gmpMerge (fuel + 1) g i = if p1.order = d1.order
      then (whileZero (fun g => gmpMerge fuel g i) fuel (g1.join i j d1 p1)).map fun g => (g, 0)
      else some (g1, -EINVAL) := by
  have hguard : ¬ (d.used || unaligned d first) = true := by
    rw [hun, Bool.or_false]
    exact hused
  simp only [gmpMerge, Option.bind_eq_bind]
  rw [hfirst, Option.bind_some, hd, Option.bind_some, if_neg hguard, hnext, Option.bind_some]
  simp only
  -- the descriptors are read again after the call
  rw [hp, Option.bind_some, if_neg hpused, hrun, Option.bind_some]
  rw [hp1, Option.bind_some, hd1, Option.bind_some]
  by_cases horder : p1.order = d1.order
  · rw [if_pos horder, if_pos horder, Option.map_eq_bind]
    rfl
  · rw [if_neg horder, if_neg horder]
    rfl

/-- With as much fuel as there are blocks, `gmp_merge` comes to an end and leaves a cut with the
same used blocks. -/
theorem gmpMerge_spec (fuel : Nat) : MergeSpec fuel := by
  induction fuel with
  | zero =>
    intro g i d ds _ _ hfuel
    simp at hfuel
  | succ fuel ih =>
    intro g i d ds hs hl hfuel
    obtain ⟨first, hfirst⟩ := hs.first
    have hdvd : 2 ^ d.order ∣ i := hl.cut.1
    -- The answers with `-EINVAL` that leave the pool alone.
    have hkeep : TopmostFrom i d ds → gmpMerge (fuel + 1) g i = some (g, -EINVAL) →
        ∃ g' ret d' ds', gmpMerge (fuel + 1) g i = some (g', ret) ∧
          MergeResult g g' i d ds d' ds' ∧ (ret = 0 → ds'.length < ds.length) := by
      intro htop hrun
      exact ⟨g, -EINVAL, d, ds, hrun, MergeResult.refl hl htop, fun h => by simp [EINVAL] at h⟩
    by_cases hused : d.used = true
    · refine hkeep (Topmost.of_freeEnd_le ?_) (by simp [gmpMerge, hfirst, hl.get, hused])
      simp [freeEnd_cons, Gmdesc.free, hused]
    by_cases hal : 2 ^ (d.order + 1) ∣ i
    swap
    · have hun := (hs.unaligned_iff hl.get hfirst hdvd).mpr hal
      exact hkeep (Topmost.of_not_dvd hal) (by simp [gmpMerge, hfirst, hl.get, hun])
    have hun : unaligned d first = false := by
      rw [← Bool.not_eq_true, hs.unaligned_iff hl.get hfirst hdvd]
      exact fun h => h hal
    cases ds with
    | nil =>
      refine hkeep (Topmost.of_freeEnd_le ?_) ?_
      · simp [freeEnd, place, Gmdesc.free, hused]
      · simp [gmpMerge, hfirst, hl.get, hl.next_last]
    | cons p ds =>
      by_cases hpused : p.used = true
      · refine hkeep (Topmost.of_freeEnd_le ?_) ?_
        · simp [freeEnd_cons, Gmdesc.free, hused, hpused]
        · simp [gmpMerge, hfirst, hl.get, hl.next_cons, hl.tail.get, hpused]
      -- Merge from the next block on.
      obtain ⟨g1, ret, p1, ds1, hrun, hres, -⟩ :=
        ih g (i + 2 ^ d.order) p ds hs hl.tail (by simpa using hfuel)
      have hm1 := hres.merged.cons hl
      have hget_i := hm1.laid.get
      have hget_j := hm1.laid.tail.get
      have hp1 : p1.free = true := by
        have hcore := hres.merged.head hl.tail
        show (!p1.core.used) = true
        rw [hcore]
        simpa [Gmdesc.core] using hpused
      have hend := gmpMerge_join hfirst hl.get hused hun hl.next_cons hl.tail.get hpused hrun hget_i
        hget_j
      by_cases horder : p1.order = d.order
      · -- Join the two buddies, and try again with one block less.
        have hjoin := merged_join hm1.laid (by simp [Gmdesc.free, hused]) hp1 horder hal
        have hm2 := hm1.trans hjoin
        have hlen := hres.merged.length
        simp only [length_cons] at hfuel hlen
        obtain ⟨g', d', ds', hloop, hres'⟩ := whileZero_spec ih fuel _ i _ ds1
          (hm2.sized hs) hm2.laid (by simp only [length_cons]; omega)
          (by simp only [length_cons]; omega)
        rw [if_pos horder, hloop] at hend
        refine ⟨g', 0, d', ds', hend, ⟨hm2.trans hres'.merged, hres'.top, fun h => ?_⟩, fun _ => ?_⟩
        · refine hres'.settled ?_
          rw [show i + 2 ^ (d.order + 1) = i + 2 ^ d.order + 2 ^ p1.order by
            rw [horder]; omega]
          exact hres.settled h.tail
        · have hle := hres'.merged.length
          simp only [length_cons] at hle ⊢
          omega
      rw [if_neg horder] at hend
      refine ⟨g1, -EINVAL, d, p1 :: ds1, hend, ⟨hm1, ?_, fun h => ?_⟩,
        fun h => by simp [EINVAL] at h⟩
      · exact Topmost.of_buddy hal hres.top hm1.laid.tail.cut horder
      · exact hres.top.settled (hres.settled h.tail)

/-! ### The passes over all blocks -/

lemma Merged.append_left (h : Merged g g' (stopAt Gmdesc.order i pre) ds ds')
    (hl : g.Laid i (pre ++ ds)) :
    Merged g g' i (pre ++ ds) (pre ++ ds') := by
  induction pre generalizing i with
  | nil => exact h
  | cons d pre ih =>
    rw [stopAt_cons] at h
    exact (ih h hl.tail).cons hl

/-- The pass settles the blocks: each block that it leaves behind is as large as it can be, and the
later merges do not change which units are free. -/
theorem mergeForward_spec (hs : g.Sized) (hl : g.Laid i ds) (hne : ds ≠ [])
    (hfuel : ds.length ≤ fuel) :
    ∃ g' ds', mergeForward fuel g i = some g' ∧ Merged g g' i ds ds' ∧ SettledFrom i ds' := by
  induction fuel generalizing g i ds with
  | zero => exact absurd (length_eq_zero_iff.mp (by omega)) hne
  | succ fuel ih =>
    cases ds with
    | nil => exact absurd rfl hne
    | cons d ds =>
      obtain ⟨g1, ret, d1, ds1, hrun, hres, -⟩ := gmpMerge_spec _ g i d ds hs hl (hl.length_le hs)
      have hl1 := hres.merged.laid
      cases ds1 with
      | nil =>
        refine ⟨g1, [d1], ?_, hres.merged, trivial⟩
        simp [mergeForward, hrun, hl1.next_last]
      | cons e1 ds1 =>
        have hlen := hres.merged.length
        simp only [length_cons] at hlen hfuel
        obtain ⟨g', ds', hrest, hm, hset⟩ := ih (hres.merged.sized hs) hl1.tail
          (cons_ne_nil e1 ds1) (by simp only [length_cons]; omega)
        have hm' := hm.cons hl1
        have htop : TopmostFrom i d1 ds' := by
          intro k hk hend
          exact hres.top k hk (by rwa [hm'.freeEnd_eq hl1] at hend)
        refine ⟨g', d1 :: ds', ?_, hres.merged.trans hm', htop.settled hset⟩
        simp [mergeForward, hrun, hl1.next_cons, hrest]

lemma prevWalk_eq {j p : Nat}
    (hl : g.Laid j (pre ++ c :: e :: ds)) (hi : i = stopAt Gmdesc.order j (pre ++ [c]))
    (hfuel : pre.length + 2 ≤ fuel) : prevWalk g i fuel p j = some (stopAt Gmdesc.order j pre) := by
  induction pre generalizing j p fuel with
  | nil =>
    obtain ⟨fuel, rfl⟩ : ∃ n, fuel = n + 2 := ⟨fuel - 2, by omega⟩
    simp [prevWalk, hl.next_cons, hi]
  | cons d pre ih =>
    obtain ⟨fuel, rfl⟩ : ∃ n, fuel = n + 1 := ⟨fuel - 1, by omega⟩
    have hne : j ≠ i := by
      have hlt : j < stopAt Gmdesc.order j (d :: pre ++ [c]) := lt_stopAt j (by simp)
      omega
    have hnext : nextGmdesc g j = some (some (j + 2 ^ d.order)) := by
      rw [hl.next, if_neg (by simp)]
    rw [cons_append, stopAt_cons] at hi
    have hfuel' : pre.length + 2 ≤ fuel := by
      simp only [length_cons] at hfuel
      omega
    rw [prevWalk, if_neg hne, hnext, stopAt_cons]
    exact ih hl.tail hi hfuel'

lemma prevGmdesc_eq (hs : g.Sized) (hl : g.Laid 0 (pre ++ c :: e :: ds)) :
    prevGmdesc g (stopAt Gmdesc.order 0 (pre ++ [c])) =
      some (some (stopAt Gmdesc.order 0 pre)) := by
  have hne : stopAt Gmdesc.order 0 (pre ++ [c]) ≠ 0 := by
    have hlt : 0 < stopAt Gmdesc.order 0 (pre ++ [c]) := lt_stopAt 0 (by simp)
    omega
  have hlen := hl.length_le hs
  simp only [length_append, length_cons] at hlen
  unfold prevGmdesc
  rw [if_neg hne, prevWalk_eq hl rfl (by omega)]
  rfl

lemma mergeBackward_spec (hs : g.Sized) (hl : g.Laid 0 (pre ++ d :: ds))
    (hfuel : pre.length + 1 ≤ fuel)
    (hset : SettledFrom (stopAt Gmdesc.order 0 pre + 2 ^ d.order) ds) :
    ∃ g' ds', mergeBackward fuel g (stopAt Gmdesc.order 0 pre) = some g' ∧ ds' ≠ [] ∧
      Merged g g' 0 (pre ++ d :: ds) ds' ∧ SettledFrom 0 ds' := by
  induction fuel generalizing g pre d ds with
  | zero => omega
  | succ fuel ih =>
    have hli := (Gmp.laid_append.mp hl).2.2
    obtain ⟨g1, ret, d1, ds1, hrun, hres, -⟩ := gmpMerge_spec _ g _ d ds hs hli (hli.length_le hs)
    have hm := hres.merged.append_left hl
    have hset1 := hres.top.settled (hres.settled hset)
    rcases eq_nil_or_concat pre with rfl | ⟨pre, c, rfl⟩
    · simp only [stopAt_nil] at hrun hm hset1 ⊢
      refine ⟨g1, d1 :: ds1, ?_, cons_ne_nil _ _, hm, hset1⟩
      simp [mergeBackward, hrun, prevGmdesc]
    simp only [concat_eq_append, append_assoc, length_append, length_singleton]
      at hrun hm hset1 hfuel ⊢
    have hprev := prevGmdesc_eq (hm.sized hs) hm.laid
    rw [stopAt_append] at hprev hrun hset1 ⊢
    obtain ⟨g', ds', hrest, hne, hm', hset'⟩ := ih (hm.sized hs) hm.laid (by omega) hset1
    refine ⟨g', ds', ?_, hne, hm.trans hm', hset'⟩
    simp only [mergeBackward, hrun, hprev, hrest, Option.bind_eq_bind, Option.bind_some]

end Wm8850.Ge
