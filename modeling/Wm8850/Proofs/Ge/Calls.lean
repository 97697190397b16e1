import Wm8850.Proofs.Ge.Alloc

/-! # Every call keeps the layout

`Gmp.Wf`: the array is sized, the cached descriptor is one of the array, and the descriptors
describe a cut of the pool. The cached descriptor may lie inside a block that was merged since; a
write of `gmp_free` to it does not show (`writeAt`). -/

namespace Wm8850.Ge

open Lib List Nat

structure Gmp.Wf (g : Gmp) : Prop where
  sized : g.Sized
  cached : ∀ c, g.cached = some c → c < g.nr
  laid : ∃ ds, g.Laid 0 ds

variable {g g' : Gmp} {i : Nat} {ds : List Gmdesc}

lemma Gmp.Sized.get_of_lt (hs : g.Sized) {k : Nat} (hk : k < g.nr) :
    ∃ p, g.gmdesc[k]? = some p := by
  rw [← hs.length] at hk
  exact ⟨g.gmdesc[k], getElem?_eq_getElem hk⟩

lemma Merged.idsKept {ds' : List Gmdesc} (h : Merged g g' i ds ds') : IdsKept g g' := by
  intro k d' hd'
  obtain ⟨d, hd, hcore⟩ := exists_get_of_core h.core.symm hd'
  refine .inr ⟨d, hd, ?_⟩
  show d'.core.secureId = d.core.secureId
  rw [hcore]

/-! ### `gmp_free` -/

lemma freeTarget_spec (hw : g.Wf) (hl : g.Laid 0 ds) (pa : Nat) :
    (freeTarget g pa = some none ∧ ∀ d ∈ ds, d.pa ≠ pa) ∨
      ∃ i p, freeTarget g pa = some (some i) ∧ g.gmdesc[i]? = some p ∧ p.pa = pa := by
  -- The walk, which runs when the cache does not help.
  have hwalk : (findGmdesc g (fun p => decide (p.pa = pa)) g.gmdesc.length 0 = some none ∧
      ∀ d ∈ ds, d.pa ≠ pa) ∨ ∃ i p, findGmdesc g (fun p => decide (p.pa = pa)) g.gmdesc.length 0
        = some (some i) ∧ g.gmdesc[i]? = some p ∧ p.pa = pa := by
    rcases hl.findGmdesc_cases hw.sized fun p => decide (p.pa = pa) with
      ⟨hrun, hno⟩ | ⟨pre, d, post, rfl, hd, -, hrun⟩
    · exact .inl ⟨hrun, fun d hd => of_decide_eq_false (hno d hd)⟩
    · exact .inr ⟨_, d, hrun, (Gmp.laid_append.mp hl).2.2.get, of_decide_eq_true hd⟩
  unfold freeTarget
  cases hc : g.cached with
  | none => exact hwalk
  | some c =>
    obtain ⟨p, hp⟩ := hw.sized.get_of_lt (hw.cached c hc)
    simp only [hp, Option.bind_eq_bind, Option.bind_some]
    by_cases hpa : p.pa = pa
    · rw [if_neg (by simpa using hpa)]
      exact .inr ⟨c, p, rfl, hp, hpa⟩
    · rw [if_pos hpa]
      exact hwalk

lemma gmpFree_spec (hw : g.Wf) (hl : g.Laid 0 ds) (pa : Nat) :
    ∃ g' ds', gmpFree g pa = some g' ∧ SettledFrom 0 ds' ∧
      ((Merged g g' 0 ds ds' ∧ ∀ d ∈ ds, d.pa ≠ pa) ∨
      ∃ i p, g.gmdesc[i]? = some p ∧ p.pa = pa ∧
        Merged (g.set i p.release) g' 0 (writeAt i Gmdesc.release 0 ds) ds') := by
  rcases freeTarget_spec hw hl pa with ⟨ht, hno⟩ | ⟨i, p, ht, hp, hpa⟩
  · obtain ⟨g', ds', hrun, hm, hset⟩ :=
      mergeForward_spec hw.sized hl (hl.ne_nil hw.sized) (hl.length_le hw.sized)
    exact ⟨g', ds', by simp [gmpFree, ht, hrun], hset, .inl ⟨hm, hno⟩⟩
  have hs' : (g.set i p.release).Sized := hw.sized.write hp rfl
  have hl' := hl.write (f := Gmdesc.release) hp (fun _ => rfl) (fun _ => rfl)
  obtain ⟨g', ds', hrun, hm, hset⟩ := mergeForward_spec hs' hl' (hl'.ne_nil hs') (hl'.length_le hs')
  have hlen : (g.set i p.release).gmdesc.length = g.gmdesc.length := length_set ..
  rw [hlen] at hrun
  exact ⟨g', ds', by simp [gmpFree, ht, hp, hrun], hset, .inr ⟨i, p, hp, hpa, hm⟩⟩

/-! ### `gmp_invalidate` -/

def Gmdesc.releaseOf (pid : Int) (d : Gmdesc) : Gmdesc := if d.owner = pid then d.release else d

lemma Gmdesc.releaseOf_order (pid : Int) (d : Gmdesc) : (d.releaseOf pid).order = d.order := by
  unfold Gmdesc.releaseOf
  split <;> rfl

structure SamePool (g g' : Gmp) (i : Nat) : Prop where
  sized : g'.Sized
  below : ∀ k < i, g'.gmdesc[k]? = g.gmdesc[k]?
  pa : g'.pa = g.pa
  len : g'.len = g.len
  cached : g'.cached = g.cached

lemma releaseOf_write (pid : Int) (hs : g.Sized) {d : Gmdesc} (hl : g.Laid i (d :: ds)) :
    SamePool g (if d.owner = pid then g.set i d.release else g) i ∧
      (if d.owner = pid then g.set i d.release else g).Laid i (d.releaseOf pid :: ds) := by
  unfold Gmdesc.releaseOf
  by_cases howner : d.owner = pid
  · rw [if_pos howner, if_pos howner]
    have hw := hl.write (f := Gmdesc.release) hl.get (fun _ => rfl) (fun _ => rfl)
    have hpos := Nat.two_pow_pos d.order
    rw [writeAt, if_pos rfl, writeAt_of_lt _ (by omega)] at hw
    refine ⟨⟨hs.write hl.get rfl, fun k hk => ?_, rfl, rfl, rfl⟩, hw⟩
    exact getElem?_set_ne (by omega)
  · rw [if_neg howner, if_neg howner]
    exact ⟨⟨hs, fun _ _ => rfl, rfl, rfl, rfl⟩, hl⟩

lemma releaseOwned_spec (pid : Int) {fuel : Nat} (hs : g.Sized)
    (hl : g.Laid i ds) (hne : ds ≠ []) (hfuel : ds.length ≤ fuel) :
    ∃ g', releaseOwned pid fuel g i = some g' ∧ SamePool g g' i ∧
      g'.Laid i (ds.map (Gmdesc.releaseOf pid)) := by
  induction ds generalizing g i fuel with
  | nil => exact absurd rfl hne
  | cons d ds ih =>
    obtain ⟨fuel, rfl⟩ : ∃ n, fuel = n + 1 := ⟨fuel - 1, by simp at hfuel; omega⟩
    obtain ⟨hsame, hl1⟩ := releaseOf_write pid hs hl
    generalize hg1 : (if d.owner = pid then g.set i d.release else g) = g1 at hsame hl1
    have hpos := Nat.two_pow_pos d.order
    cases ds with
    | nil =>
      refine ⟨g1, ?_, hsame, hl1⟩
      simp [releaseOwned, hl.get, hg1, hl1.next_last]
    | cons e ds =>
      have hl2 := hl1.tail
      rw [Gmdesc.releaseOf_order] at hl2
      obtain ⟨g', hrun, hsame', hl'⟩ := ih hsame.sized hl2 (cons_ne_nil e ds)
        (show (e :: ds).length ≤ fuel by simpa using hfuel)
      have hbelow : ∀ k < i, g'.gmdesc[k]? = g.gmdesc[k]? := by
        intro k hk
        rw [hsame'.below k (by omega), hsame.below k hk]
      refine ⟨g', ?_, ⟨hsame'.sized, hbelow, hsame'.pa.trans hsame.pa,
        hsame'.len.trans hsame.len, hsame'.cached.trans hsame.cached⟩, ?_⟩
      · simp [releaseOwned, hl.get, hg1, hl1.next_cons, Gmdesc.releaseOf_order, hrun]
      have hnr : g'.nr = g1.nr := by rw [Gmp.nr, Gmp.nr, hsame'.len]
      refine @Gmp.Laid.append_left i g1 g' (e :: ds) [d.releaseOf pid] _ hl1 hnr ?_ ?_
      · intro k hk
        simp only [stopAt_cons, Gmdesc.releaseOf_order] at hk
        exact hsame'.below k hk
      · simp only [stopAt_cons, Gmdesc.releaseOf_order]
        exact hl'

lemma gmpInvalidate_spec (hs : g.Sized) (hl : g.Laid 0 ds) (pid : Int) :
    ∃ g1 g' ds', gmpInvalidate g pid = some g' ∧ SettledFrom 0 ds' ∧ SamePool g g1 0 ∧
      Merged g1 g' 0 (ds.map (Gmdesc.releaseOf pid)) ds' := by
  obtain ⟨g1, hrel, hsame, hl1⟩ := releaseOwned_spec pid hs hl (hl.ne_nil hs) (hl.length_le hs)
  obtain ⟨g', ds', hrun, hm, hset⟩ := mergeForward_spec hsame.sized hl1 (hl1.ne_nil hsame.sized)
    (hl1.length_le hsame.sized)
  exact ⟨g1, g', ds', by simp [gmpInvalidate, hrel, hrun], hset, hsame, hm⟩

/-! ### `gmp_reset` -/

def freshDesc (pa nr k : Nat) : Gmdesc :=
  { pa := wadd pa (k * unitSize), order := 0, used := false, tag := gmpTagDefault, owner := 0
    tail := decide (k + 1 = nr), secureId := umpInvalidSecureId }

lemma initGmdesc_eq (nr pa : Nat) (hpa : pa < wordSize) :
    initGmdesc nr pa = (range nr).map (freshDesc pa nr) := by
  induction nr generalizing pa with
  | zero => rfl
  | succ nr ih =>
    rw [initGmdesc, ih (wadd pa unitSize) (mod_lt _ (by decide)), range_succ_eq_map, map_cons,
      map_map]
    refine cons_eq_cons.mpr ⟨?_, map_congr_left fun k _ => ?_⟩
    · have hbase : wadd pa (0 * unitSize) = pa := by
        rw [zero_mul, wadd, add_zero, mod_eq_of_lt hpa]
      have hlast : decide (0 + 1 = nr + 1) = decide (nr = 0) := decide_eq_decide.mpr (by omega)
      rw [freshDesc, hbase, hlast]
    have haddr : wadd (wadd pa unitSize) (k * unitSize) = wadd pa ((k + 1) * unitSize) := by
      rw [wadd_wadd, add_mul, one_mul, add_comm]
    have hlast : decide (k + 1 + 1 = nr + 1) = decide (k + 1 = nr) :=
      decide_eq_decide.mpr (by omega)
    rw [Function.comp_apply, freshDesc, freshDesc, haddr, hlast]

variable (hg : g.gmdesc = (range g.nr).map (freshDesc g.pa g.nr))

include hg in
lemma laid_fresh {m : Nat} (him : i + m = g.nr) :
    g.Laid i ((range' i m).map (freshDesc g.pa g.nr)) := by
  induction m generalizing i with
  | zero => exact ⟨him, trivial⟩
  | succ m ih =>
    have hrest := ih (i := i + 1) (by omega)
    refine ⟨⟨by simp [freshDesc], hrest.cut⟩, ?_, rfl, hrest.seg⟩
    rw [hg, getElem?_map, getElem?_range (by omega)]
    rfl

lemma stopAt_fresh (pa nr i m : Nat) :
    stopAt Gmdesc.order i ((range' i m).map (freshDesc pa nr)) = i + m := by
  simp [stopAt, freshDesc, Function.comp_def]

/-- A pool before `gmp_reset`: the base address is a word, and the length an `int`. -/
structure Gmp.Poolable (g : Gmp) : Prop where
  pa : g.pa < wordSize
  pos : 0 < g.nr
  bound : g.nr < 2 ^ 15

include hg in
lemma mergeBackward_fresh (hp : g.Poolable) :
    ∃ g' d ds, mergeBackward g.nr g (g.nr - 1) = some g' ∧ g'.Sized ∧ g'.Laid 0 (d :: ds) ∧
      (∀ c ∈ d :: ds, c.used = false) ∧ SettledFrom 0 (d :: ds) ∧
      g'.gmdesc.map Gmdesc.core = g.gmdesc.map Gmdesc.core ∧ g'.pa = g.pa ∧ g'.len = g.len := by
  have hget : ∀ k d, g.gmdesc[k]? = some d → d = freshDesc g.pa g.nr k := by
    intro k d hd
    rw [hg, getElem?_map] at hd
    obtain ⟨m, hm, rfl⟩ := Option.map_eq_some_iff.mp hd
    rw [(List.getElem?_eq_some_iff.mp hm).2.symm, List.getElem_range]
  have hs : g.Sized := by
    refine ⟨?_, hp.pos, hp.bound, fun k d hd => ?_⟩
    · rw [hg, length_map, length_range]
    · rw [hget k d hd]
      rfl
  -- The pass starts at the last descriptor.
  obtain ⟨n, hn⟩ : ∃ n, g.nr = n + 1 := ⟨g.nr - 1, by have := hp.pos; omega⟩
  have hl : g.Laid 0 ((range' 0 n).map (freshDesc g.pa g.nr) ++ [freshDesc g.pa g.nr n]) := by
    have hall := laid_fresh hg (zero_add g.nr)
    rw [hn, range'_concat, ← hn] at hall
    simpa using hall
  have hstart := stopAt_fresh g.pa g.nr 0 n
  obtain ⟨g', ds', hrun, hne, hm, hset⟩ := @mergeBackward_spec g.nr _ g [] _ hs hl
    (by rw [length_map, length_range', hn]) trivial
  cases ds' with
  | nil => exact absurd rfl hne
  | cons d ds =>
    refine ⟨g', d, ds, ?_, hm.sized hs, hm.laid, ?_, hset, hm.core, hm.pa, hm.len⟩
    · rw [← hrun]
      congr 1
      omega
    -- No block was in use, so none is.
    have hnone : usedBlocks 0 (d :: ds) = [] := by
      rw [hm.used]
      refine filter_eq_nil_iff.mpr fun q hq hused => ?_
      have hmem := mem_map_of_mem (f := Prod.snd) hq
      rw [map_snd_place] at hmem
      have hfresh : ∀ c ∈ (range' 0 n).map (freshDesc g.pa g.nr) ++ [freshDesc g.pa g.nr n],
          c.used = false := by
        intro c hc
        simp only [mem_append, mem_map, mem_singleton] at hc
        rcases hc with ⟨k, -, rfl⟩ | rfl <;> rfl
      rw [hfresh q.2 hmem] at hused
      exact absurd hused (by simp)
    intro c hc
    have hcs : c ∈ (place Gmdesc.order 0 (d :: ds)).map Prod.snd := by
      rw [map_snd_place]
      exact hc
    obtain ⟨q, hq, rfl⟩ := mem_map.mp hcs
    simpa using filter_eq_nil_iff.mp hnone q hq

lemma gmpGetOrder_array_le {nr : Nat} (hpos : 0 < nr) (hbound : nr < 2 ^ 15) :
    gmpGetOrder (sizeofGmdesc * nr) ≤ nr.log2 := by
  have hlt : nr < 2 ^ (nr.log2 + 1) := lt_log2_self
  refine gmpGetOrder_le ?_ ?_
  · simp only [sizeofGmdesc, wordSize]
    omega
  · simp only [sizeofGmdesc, unitSize]
    omega

def Gmp.NoIds (g : Gmp) : Prop :=
  ∀ (k : Nat) (d : Gmdesc), g.gmdesc[k]? = some d → d.secureId = umpInvalidSecureId

lemma Gmp.NoIds.of_idsKept (h : g.NoIds) (hk : IdsKept g g') : g'.NoIds := by
  intro k d' hd'
  rcases hk k d' hd' with hinv | ⟨d, hd, heq⟩
  · exact hinv
  · rw [heq]
    exact h k d hd

lemma Gmp.NoIds.write (h : g.NoIds) (k : Nat) {e : Gmdesc}
    (he : e.secureId = umpInvalidSecureId) : (g.set k e).NoIds := by
  intro m d hd
  have hset : (g.gmdesc.set k e)[m]? = some d := hd
  rw [getElem?_set] at hset
  split at hset
  · split at hset
    · cases hset
      exact he
    · exact absurd hset (by simp)
  · exact h m d hset

include hg in
lemma Gmp.NoIds.fresh : g.NoIds := by
  intro k d hd
  rw [hg, getElem?_map] at hd
  obtain ⟨m, -, rfl⟩ := Option.map_eq_some_iff.mp hd
  rfl

lemma Gmp.NoIds.of_core (h : g.NoIds)
    (hcore : g'.gmdesc.map Gmdesc.core = g.gmdesc.map Gmdesc.core) : g'.NoIds := by
  intro k d' hd'
  obtain ⟨d, hd, heq⟩ := exists_get_of_core hcore.symm hd'
  show d'.core.secureId = _
  rw [← heq]
  exact h k d hd

structure Reset (g g' : Gmp) (e : Gmdesc) (ds : List Gmdesc) : Prop where
  sized : g'.Sized
  laid : g'.Laid 0 (e :: ds)
  settled : SettledFrom 0 (e :: ds)
  used : e.used = true
  order : e.order = gmpGetOrder (sizeofGmdesc * g.nr)
  noIds : g'.NoIds
  cached : g'.cached = some 0
  pa : g'.pa = g.pa
  len : g'.len = g.len

lemma gmpReset_spec (hp : g.Poolable) (pid : Int) :
    ∃ g' e ds, gmpReset g pid = some g' ∧ Reset g g' e ds := by
  let g0 : Gmp := { g with gmdesc := initGmdesc g.nr g.pa }
  have hg0 : g0.gmdesc = (range g0.nr).map (freshDesc g0.pa g0.nr) := initGmdesc_eq g.nr g.pa hp.pa
  obtain ⟨g1, d, ds, hrun, hs1, hl1, hfree, hset, hcore, hpa, hlen⟩ :=
    mergeBackward_fresh hg0 ⟨hp.pa, hp.pos, hp.bound⟩
  have hnr : g1.nr = g.nr := by
    rw [Gmp.nr, Gmp.nr, hlen]
  -- The first block is long enough for the array.
  have horder : gmpGetOrder (sizeofGmdesc * g.nr) ≤ d.order := by
    refine le_trans (gmpGetOrder_array_le hp.pos hp.bound) ?_
    refine hset.topmost hl1.cut _ (by simp) ?_
    rw [freeEnd_of_free fun c hc => by simp [Gmdesc.free, hfree c hc], hl1.cut.stopAt_eq, hnr,
      zero_add]
    exact log2_self_le (by have := hp.pos; omega)
  have hfits : d.fits (gmpGetOrder (sizeofGmdesc * g.nr)) = true := by
    simp [Gmdesc.fits, hfree d mem_cons_self, horder]
  obtain ⟨g2, e, rest, he, hc, halloc⟩ :=
    gmpAlloc_of_free pid none hs1 (show g1.Laid 0 ([] ++ d :: ds) from
    hl1) (by simp) hfits (gmpCtag 0x67 0x6d 0x70 0x20)
  have hl2 := hc.laid_claim pid none hl1 (gmpCtag 0x67 0x6d 0x70 0x20)
  have hget2 := hc.laid.get
  simp only [stopAt_nil, nil_append] at halloc hl2 hget2
  generalize hclaim : e.claim (gmpCtag 0x67 0x6d 0x70 0x20) pid none = c at halloc hl2
  -- The last write makes the process `-1` the owner.
  have hfirst := hl2.get
  have hl3 := hl2.write (f := fun p => { p with owner := -1 }) hfirst (fun _ => rfl) (fun _ => rfl)
  have hpos := Nat.two_pow_pos c.order
  rw [writeAt, writeAt_of_lt _ (by omega)] at hl3
  have hs2 : (({ g2 with cached := some 0 } : Gmp).set 0 c).Sized := by
    have hs2' : ({ g2 with cached := some 0 } : Gmp).Sized := (hc.sized hs1).of_pas rfl rfl rfl
    exact hs2'.write hget2 (by rw [← hclaim]; rfl)
  have hids2 : g2.NoIds := ((Gmp.NoIds.fresh hg0).of_core hcore).of_idsKept hc.ids
  have hcid : c.secureId = umpInvalidSecureId := by
    rw [← hclaim]
    rfl
  refine ⟨(({ g2 with cached := some 0 } : Gmp).set 0 c).set 0 { c with owner := -1 },
    { c with owner := -1 }, rest ++ ds, ?_, hs2.write hfirst rfl, hl3, ?_, ?_, ?_, ?_, rfl,
    hc.pa.trans hpa, hc.len.trans hlen⟩
  · have hnr0 : g.nr ≠ 0 := by
      have := hp.pos
      omega
    simp only [gmpReset, if_neg hnr0]
    rw [hrun]
    simp [hnr, halloc, hfirst]
  · refine hc.settled_claim (show SettledFrom 0 ([] ++ d :: ds) from hset) rfl hl1.cut.1 (by omega)
      ?_ ?_
    · rw [← hclaim]
      rfl
    · rw [← hclaim]
      rfl
  · rw [← hclaim]
    rfl
  · rw [← hclaim]
    exact he
  · have hids : (({ g2 with cached := some 0 } : Gmp).set 0 c).NoIds :=
      Gmp.NoIds.write (g := { g2 with cached := some 0 }) hids2 0 hcid
    exact hids.write 0 hcid

end Wm8850.Ge
