import Wm8850.Proofs.Ge.Merge

/-! # What an allocation does to the blocks

`gmp_alloc` halves the first free block of at least the wanted order. `Carved` is what this leaves:
the block, then the right halves with the orders from there on up, then the blocks that followed. -/

namespace Wm8850.Ge

open Lib List Nat

/-! ### The order of a size -/

variable {size k i : Nat} {g g' g1 : Gmp} {d e : Gmdesc} {rest ds pre post : List Gmdesc}

lemma orderLoop_spec (turns val : Nat) (h : val < 2 ^ turns) :
    val < 2 ^ orderLoop turns val ∧ ∀ m < orderLoop turns val, 2 ^ m ≤ val := by
  induction turns generalizing val with
  | zero => exact ⟨h, fun m hm => absurd hm (Nat.not_lt_zero m)⟩
  | succ turns ih =>
    unfold orderLoop
    by_cases hval : val = 0
    · rw [hval]
      exact ⟨one_pos, fun m hm => absurd hm (Nat.not_lt_zero m)⟩
    rw [if_neg hval]
    obtain ⟨hlt, hle⟩ := ih (val / 2) (by omega)
    refine ⟨by omega, fun m hm => ?_⟩
    cases m with
    | zero => exact one_le_iff_ne_zero.mpr hval
    | succ m =>
      have := hle m (by omega)
      omega

lemma gmpGetOrder_spec (hsize : size < wordSize) : size ≤ 2 ^ gmpGetOrder size * unitSize ∧
      ∀ m < gmpGetOrder size, 2 ^ m * unitSize < size := by
  unfold gmpGetOrder
  by_cases h0 : size = 0
  · rw [h0]
    exact ⟨Nat.zero_le _, fun m hm => absurd hm (Nat.not_lt_zero m)⟩
  rw [if_neg h0]
  have hlt : (size - 1) / unitSize < 2 ^ 32 :=
    Nat.lt_of_le_of_lt (Nat.div_le_self _ _) (by simp only [wordSize] at hsize; omega)
  obtain ⟨hup, hlow⟩ := orderLoop_spec 32 _ hlt
  constructor
  · have := (Nat.div_lt_iff_lt_mul (by decide)).mp hup
    omega
  · intro m hm
    have := (Nat.le_div_iff_mul_le (by decide)).mp (hlow m hm)
    omega

lemma gmpGetOrder_le (hsize : size < wordSize) (hk : size ≤ 2 ^ k * unitSize) :
    gmpGetOrder size ≤ k := by
  by_contra hlt
  have := (gmpGetOrder_spec hsize).2 k (by omega)
  omega

/-! ### Splitting -/

def IdsKept (g g' : Gmp) : Prop :=
  ∀ (k : Nat) (d' : Gmdesc), g'.gmdesc[k]? = some d' → d'.secureId = umpInvalidSecureId ∨
    ∃ d, g.gmdesc[k]? = some d ∧ d'.secureId = d.secureId

lemma IdsKept.refl (g : Gmp) : IdsKept g g := fun _ d' hd' => .inr ⟨d', hd', rfl⟩

lemma IdsKept.trans {g'' : Gmp} (h : IdsKept g g') (h' : IdsKept g' g'') : IdsKept g g'' := by
  intro k d'' hd''
  rcases h' k d'' hd'' with hinv | ⟨d', hd', heq⟩
  · exact .inl hinv
  · rw [heq]
    exact h k d' hd'

/-- The block `d` at `i` was cut down to `e`, and `rest` are the right halves. -/
structure Carved (g g' : Gmp) (i : Nat) (d e : Gmdesc) (rest ds : List Gmdesc) : Prop where
  laid : g'.Laid i (e :: (rest ++ ds))
  head : e = { d with order := e.order, tail := e.tail }
  orders : rest.map Gmdesc.order = range' e.order (d.order - e.order)
  used : ∀ r ∈ rest, r.used = d.used
  outside : ∀ k, k < i ∨ i + 2 ^ d.order ≤ k → g'.gmdesc[k]? = g.gmdesc[k]?
  ids : IdsKept g g'
  pas : g'.gmdesc.map Gmdesc.pa = g.gmdesc.map Gmdesc.pa
  pa : g'.pa = g.pa
  len : g'.len = g.len
  cached : g'.cached = g.cached

lemma Carved.sized (h : Carved g g' i d e rest ds) (hs : g.Sized) : g'.Sized :=
  hs.of_pas h.pas h.pa h.len

lemma Carved.nr (h : Carved g g' i d e rest ds) : g'.nr = g.nr := by rw [Gmp.nr, Gmp.nr, h.len]

lemma Carved.refl (hl : g.Laid i (d :: ds)) : Carved g g i d d [] ds where
  laid := hl
  head := rfl
  orders := by simp
  used := by simp
  outside _ _ := rfl
  ids := IdsKept.refl g
  pas := rfl
  pa := rfl
  len := rfl
  cached := rfl

def Gmdesc.rightHalf (k : Nat) (d n : Gmdesc) : Gmdesc :=
  { n with
    order := k, used := d.used, tag := gmpTagDefault, tail := d.tail
    secureId := umpInvalidSecureId }

def Gmp.halve (g : Gmp) (i k : Nat) (d n : Gmdesc) : Gmp :=
  ((g.set i { d with order := k }).set (i + 2 ^ k) (d.rightHalf k n)).set i
    { d with order := k, tail := false }

section
variable {g : Gmp} {i k : Nat} {d n : Gmdesc} (hd : g.gmdesc[i]? = some d)
  (hn : g.gmdesc[i + 2 ^ k]? = some n)

lemma halve_get_of_ne {m : Nat} (hmi : m ≠ i) (hmj : m ≠ i + 2 ^ k) :
    (g.halve i k d n).gmdesc[m]? = g.gmdesc[m]? := by
  show (((g.gmdesc.set i _).set _ _).set i _)[m]? = _
  rw [getElem?_set_ne hmi.symm, getElem?_set_ne hmj.symm, getElem?_set_ne hmi.symm]

include hd in
lemma halve_get_left : (g.halve i k d n).gmdesc[i]? =
    some { d with order := k, tail := false } := by
  have hi := (List.getElem?_eq_some_iff.mp hd).1
  show (((g.gmdesc.set i _).set _ _).set i _)[i]? = _
  rw [getElem?_set_self (by simpa using hi)]

include hn in
lemma halve_get_right : (g.halve i k d n).gmdesc[i + 2 ^ k]? = some (d.rightHalf k n) := by
  have hpos := Nat.two_pow_pos k
  have hj := (List.getElem?_eq_some_iff.mp hn).1
  show (((g.gmdesc.set i _).set _ _).set i _)[i + 2 ^ k]? = _
  rw [getElem?_set_ne (by omega), getElem?_set_self (by simpa using hj)]

include hd hn in
lemma halve_pas : (g.halve i k d n).gmdesc.map Gmdesc.pa = g.gmdesc.map Gmdesc.pa := by
  have hpos := Nat.two_pow_pos k
  have hi := (List.getElem?_eq_some_iff.mp hd).1
  have hleft : (g.gmdesc.set i { d with order := k }).map Gmdesc.pa = g.gmdesc.map Gmdesc.pa :=
    map_set_of_eq Gmdesc.pa hd _ rfl
  have hn' : (g.gmdesc.set i { d with order := k })[i + 2 ^ k]? = some n := by
    rw [getElem?_set_ne (by omega)]
    exact hn
  have hright : ((g.gmdesc.set i { d with order := k }).set (i + 2 ^ k) (d.rightHalf k n)).map
      Gmdesc.pa = g.gmdesc.map Gmdesc.pa := 
    (map_set_of_eq Gmdesc.pa hn' (d.rightHalf k n) rfl).trans hleft
  have hd' : ((g.gmdesc.set i { d with order := k }).set (i + 2 ^ k) (d.rightHalf k n))[i]?
      = some { d with order := k } := by
    rw [getElem?_set_ne (by omega), getElem?_set_self hi]
  exact (map_set_of_eq Gmdesc.pa hd' { d with order := k, tail := false } rfl).trans hright

include hd hn in
lemma halve_ids : IdsKept g (g.halve i k d n) := by
  intro m d' hd'
  by_cases hmi : m = i
  · subst hmi
    rw [halve_get_left hd] at hd'
    cases hd'
    exact .inr ⟨d, hd, rfl⟩
  by_cases hmj : m = i + 2 ^ k
  · subst hmj
    rw [halve_get_right hn] at hd'
    cases hd'
    exact .inl rfl
  · rw [halve_get_of_ne hmi hmj] at hd'
    exact .inr ⟨d', hd', rfl⟩

include hd hn in
lemma gmpSplit_eq (hk : d.order = k + 1) (hpa : n.pa = wadd d.pa (2 ^ k * unitSize)) :
    gmpSplit g i = some (g.halve i k d n, 0) := by
  have hpos := Nat.two_pow_pos k
  have hn' : (g.gmdesc.set i { d with order := k })[i + 2 ^ k]? = some n := by
    rw [getElem?_set_ne (by omega)]
    exact hn
  have htest : n.pa = wadd d.pa (2 ^ k * unitSize) ↔ True := iff_true_intro hpa
  simp only [gmpSplit, hd, hk, Gmp.set, gmpNr, gmpSize, Nat.add_sub_cancel, hn', htest,
    Option.bind_eq_bind, Option.bind_some, Option.pure_def, Nat.add_eq_zero_iff, one_ne_zero,
    and_false, if_false, ne_eq, not_true_eq_false]
  rfl

end

lemma gmpSplit_spec (hs : g.Sized) (hl : g.Laid i (d :: ds)) (hk : d.order = k + 1) :
    ∃ g' r, gmpSplit g i = some (g', 0) ∧ Carved g g' i d { d with order := k, tail := false }
      [r] ds := by
  have hpos := Nat.two_pow_pos k
  have hend : i + 2 ^ k + 2 ^ k = i + 2 ^ d.order := by
    rw [hk]
    omega
  have hle := hl.cut.2.le
  have hj : i + 2 ^ k < g.gmdesc.length := by
    rw [hs.length]
    omega
  -- The descriptor of the right half waits inside the block.
  obtain ⟨n, hn⟩ : ∃ n, g.gmdesc[i + 2 ^ k]? = some n := ⟨_, getElem?_eq_getElem hj⟩
  have hpa : n.pa = wadd d.pa (2 ^ k * unitSize) := by
    rw [hs.pa _ n hn, hs.pa i d hl.get, wadd_wadd, Nat.add_mul]
  have hdvd : 2 ^ k ∣ i := by
    have hdvd' := hl.cut.1
    rw [hk] at hdvd'
    exact Nat.dvd_trans (Nat.pow_dvd_pow 2 (le_succ k)) hdvd'
  have hcut : Cut Gmdesc.order (i + 2 ^ k + 2 ^ k) ds g.nr := by
    rw [hend]
    exact hl.cut.2
  have hseg : (g.halve i k d n).Seg (i + 2 ^ k + 2 ^ k) ds := by
    rw [hend]
    refine hl.seg.2.2.congr rfl (Nat.le_of_eq hl.cut.2.stopAt_eq) fun m hm _ => ?_
    exact halve_get_of_ne (by omega) (by omega)
  have htail : d.tail = decide (i + 2 ^ k + 2 ^ k = g.nr) := by
    rw [hend]
    exact hl.seg.2.1
  have hinside : false = decide (i + 2 ^ k = g.nr) := by
    rw [eq_comm, decide_eq_false_iff_not]
    omega
  refine ⟨g.halve i k d n, d.rightHalf k n, gmpSplit_eq hl.get hn hk hpa, ?_⟩
  exact {
    laid := ⟨⟨hdvd, Nat.dvd_add hdvd (Nat.dvd_refl _), hcut⟩,
      halve_get_left hl.get, hinside, halve_get_right hn, htail, hseg⟩
    head := rfl
    orders := by
      rw [hk, Nat.add_sub_cancel_left]
      rfl
    used := by
      intro x hx
      rw [mem_singleton.mp hx]
      rfl
    outside := fun m hm => halve_get_of_ne (by omega) (by omega)
    ids := halve_ids hl.get hn
    pas := halve_pas hl.get hn
    pa := rfl
    len := rfl
    cached := rfl }

lemma Carved.trans {e1 r : Gmdesc} (h : Carved g g1 i d e1 [r] ds)
    (h' : Carved g1 g' i e1 e rest (r :: ds))
    (he : e.order ≤ e1.order) (hd : d.order = e1.order + 1) :
    Carved g g' i d e (rest ++ [r]) ds where
  laid := by
    rw [append_assoc]
    exact h'.laid
  head := by
    rw [h'.head, h.head]
  orders := by
    have hr : [r].map Gmdesc.order = [e1.order] := by
      rw [h.orders, hd, Nat.add_sub_cancel_left]
      rfl
    rw [map_append, h'.orders, hr, show d.order - e.order = e1.order - e.order + 1 by omega,
      range'_concat, show e.order + 1 * (e1.order - e.order) = e1.order by omega]
  used := by
    intro x hx
    have he1 : e1.used = d.used := by rw [h.head]
    rcases mem_append.mp hx with hx | hx
    · rw [← he1]
      exact h'.used x hx
    · exact h.used x hx
  outside := by
    intro k hk
    have hpow : 2 ^ d.order = 2 ^ e1.order * 2 := by rw [hd, pow_succ]
    rw [h'.outside k (by omega), h.outside k hk]
  ids := h.ids.trans h'.ids
  pas := h'.pas.trans h.pas
  pa := h'.pa.trans h.pa
  len := h'.len.trans h.len
  cached := h'.cached.trans h.cached

lemma splitLoop_spec {order : Nat} {turns : Nat} (hs : g.Sized)
    (hl : g.Laid i (d :: ds)) (horder : order ≤ d.order) (hturns : d.order - order ≤ turns) :
    ∃ g' e rest, splitLoop order i turns g = some (g', replicate (d.order - order) 0) ∧
      e.order = order ∧ Carved g g' i d e rest ds := by
  induction turns generalizing g d ds with
  | zero =>
    have heq : d.order = order := by omega
    refine ⟨g, d, [], ?_, heq, Carved.refl hl⟩
    simp [splitLoop, heq]
  | succ turns ih =>
    by_cases heq : d.order = order
    · refine ⟨g, d, [], ?_, heq, Carved.refl hl⟩
      simp [splitLoop, hl.get, heq]
    obtain ⟨k, hk⟩ : ∃ k, d.order = k + 1 := ⟨d.order - 1, by omega⟩
    obtain ⟨g1, r, hrun, hc⟩ := gmpSplit_spec hs hl hk
    obtain ⟨g', e, rest, hloop, he, hc'⟩ := ih (hc.sized hs) hc.laid
      (show order ≤ k by omega) (show k - order ≤ turns by omega)
    refine ⟨g', e, rest ++ [r], ?_, he, hc.trans hc' (show e.order ≤ k by omega) hk⟩
    have hgt : d.order > order := by omega
    simp only [splitLoop, hl.get, hrun, hloop, hgt, Option.bind_eq_bind, Option.bind_some,
      Option.pure_def, if_true]
    rw [show d.order - order = (k - order) + 1 by omega, replicate_succ]

/-! ### The call -/

def Gmdesc.fits (order : Nat) (p : Gmdesc) : Bool := !p.used && decide (p.order ≥ order)

section
variable (pid : Int) (mali : Option Nat)

lemma gmpAlloc_of_none (hs : g.Sized) (hl : g.Laid 0 ds)
    (hne : ds ≠ []) (hno : ∀ d ∈ ds, d.fits (gmpGetOrder size) = false) (tag : Nat) :
    gmpAlloc g size tag pid mali
      = some { gmp := { g with cached := none }, ret := 0, splits := [] } := by
  have hfind : findGmdesc g (Gmdesc.fits (gmpGetOrder size)) g.gmdesc.length 0 = some none := by
    rw [hl.findGmdesc_eq hne (hl.length_le hs), find?_place_none hno]
    rfl
  show (findGmdesc g (Gmdesc.fits (gmpGetOrder size)) g.gmdesc.length 0 >>= _) = _
  rw [hfind]
  rfl

lemma gmpAlloc_of_free (hs : g.Sized) (hl : g.Laid 0 (pre ++ d :: post))
    (hpre : ∀ c ∈ pre, c.fits (gmpGetOrder size) = false) (hd : d.fits (gmpGetOrder size) = true)
    (tag : Nat) :
    ∃ g1 e rest, e.order = gmpGetOrder size ∧
      Carved g g1 (stopAt Gmdesc.order 0 pre) d e rest post ∧ gmpAlloc g size tag pid mali = some
          { gmp := ({ g1 with cached := some (stopAt Gmdesc.order 0 pre) } : Gmp).set
              (stopAt Gmdesc.order 0 pre) (e.claim tag pid mali), ret := d.pa
            splits := replicate (d.order - gmpGetOrder size) 0 } := by
  have hfind : findGmdesc g (Gmdesc.fits (gmpGetOrder size)) g.gmdesc.length 0
      = some (some (stopAt Gmdesc.order 0 pre)) := by
    rw [hl.findGmdesc_eq (by simp) (hl.length_le hs), find?_place_append hpre hd]
    rfl
  have hfit := hd
  simp only [Gmdesc.fits, Bool.and_eq_true, Bool.not_eq_true', decide_eq_true_eq] at hfit
  have hli := (Gmp.laid_append.mp hl).2.2
  obtain ⟨g1, e, rest, hloop, he, hc⟩ := splitLoop_spec hs hli hfit.2 (sub_le _ _)
  refine ⟨g1, e, rest, he, hc, ?_⟩
  have hget : g1.gmdesc[stopAt Gmdesc.order 0 pre]? = some e := hc.laid.get
  have hused : e.used = false := by
    rw [hc.head]
    exact hfit.1
  have hpa : e.pa = d.pa := by rw [hc.head]
  show (findGmdesc g (Gmdesc.fits (gmpGetOrder size)) g.gmdesc.length 0 >>= _) = _
  rw [hfind]
  simp only [Option.bind_eq_bind, Option.bind_some, hli.get, hloop, hget, hused, Option.pure_def,
    Bool.false_eq_true, if_false, hpa]

lemma gmpAlloc_cases (hs : g.Sized) (hl : g.Laid 0 ds) (size tag : Nat) :
    ((∀ d ∈ ds, d.fits (gmpGetOrder size) = false) ∧ gmpAlloc g size tag pid mali
        = some { gmp := { g with cached := none }, ret := 0, splits := [] }) ∨
    ∃ pre d post g1 e rest, ds = pre ++ d :: post ∧ d.fits (gmpGetOrder size) = true ∧
      e.order = gmpGetOrder size ∧ Carved g g1 (stopAt Gmdesc.order 0 pre) d e rest post ∧
      gmpAlloc g size tag pid mali = some
          { gmp := ({ g1 with cached := some (stopAt Gmdesc.order 0 pre) } : Gmp).set
              (stopAt Gmdesc.order 0 pre) (e.claim tag pid mali), ret := d.pa
            splits := replicate (d.order - gmpGetOrder size) 0 } := by
  rcases split_at_first (Gmdesc.fits (gmpGetOrder size)) ds with
    hno | ⟨pre, d, post, rfl, hd, hpre⟩
  · exact .inl ⟨hno, gmpAlloc_of_none pid mali hs hl (hl.ne_nil hs) hno tag⟩
  · obtain ⟨g1, e, rest, he, hc, hrun⟩ := gmpAlloc_of_free pid mali hs hl hpre hd tag
    exact .inr ⟨pre, d, post, g1, e, rest, rfl, hd, he, hc, hrun⟩

lemma Carved.laid_claim (hl : g.Laid 0 (pre ++ d :: post))
    (hc : Carved g g1 (stopAt Gmdesc.order 0 pre) d e rest post) (tag : Nat) :
    (({ g1 with cached := some (stopAt Gmdesc.order 0 pre) } : Gmp).set
      (stopAt Gmdesc.order 0 pre) (e.claim tag pid mali)).Laid 0
        (pre ++ e.claim tag pid mali :: (rest ++ post)) := by
  have hl1 : g1.Laid 0 (pre ++ e :: (rest ++ post)) :=
    hl.append_left hc.nr (fun k hk => hc.outside k (.inl hk)) hc.laid
  have hw := (hl1.setCached (some (stopAt Gmdesc.order 0 pre))).write
    (f := Gmdesc.claim tag pid mali) hc.laid.get (fun _ => rfl) (fun _ => rfl)
  rwa [writeAt_append] at hw

end

lemma Carved.settled_claim {c : Gmdesc} (hc : Carved g g1 i d e rest post)
    (h : SettledFrom 0 (pre ++ d :: post)) (hi : stopAt Gmdesc.order 0 pre = i)
    (hdvd : 2 ^ d.order ∣ i) (hle : e.order ≤ d.order) (horder : c.order = e.order)
    (hused : c.used = true) : SettledFrom 0 (pre ++ c :: (rest ++ post)) := by
  have hpost := h.of_append.tail
  rw [hi] at hpost
  refine h.append_used (by simp [Gmdesc.free, hused]) ?_
  rw [hi]
  refine Topmost.settled (Topmost.of_freeEnd_le ?_) ?_
  · simp [freeEnd_cons, Gmdesc.free, hused]
  · rw [horder]
    exact Settled.halves hc.orders hle hdvd hpost

end Wm8850.Ge
