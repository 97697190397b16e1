import Wm8850.Proofs.Ashmem.Account

/-! # The lists of unpinned ranges as sets of pages

Pinning takes an interval out of the pages of an area's list, and unpinning puts one in. Both are
shown for the ranges with a property of `purged`, so that they hold for all pages and for the purged
ones. -/

namespace Wm8850.Ashmem

open Lib List

variable {start stop p : Nat} {purged : Bool} {r : Range} {lru' : Lru}

/-- The pages of the ranges whose `purged` satisfies `ψ`. -/
abbrev pages (ψ : Bool → Prop) (ranges : List Range) : Set Nat :=
  covered Range.pgstart Range.pgend (fun r => ψ r.purged) ranges

/-- The list of an area with `n` pages. A range can be empty. -/
structure Sound (n asma : Nat) (ranges : List Range) : Prop where
  descending : Descending Range.pgstart Range.pgend ranges
  order : ∀ r ∈ ranges, r.pgstart ≤ r.pgend + 1
  bound : ∀ r ∈ ranges, r.pgend < n
  asma : ∀ r ∈ ranges, r.asma = asma

lemma rangeBeforePage_iff {page : Nat} : rangeBeforePage r page = true ↔ r.pgend < page :=
  decide_eq_true_iff

lemma pageRangeSubsumesRange_iff :
    pageRangeSubsumesRange r start stop = true ↔ start ≤ r.pgstart ∧ r.pgend ≤ stop :=
  decide_eq_true_iff

lemma pageRangeSubsumedByRange_iff :
    pageRangeSubsumedByRange r start stop = true ↔ r.pgstart ≤ start ∧ stop ≤ r.pgend :=
  decide_eq_true_iff

lemma pageRangeInRange_iff : pageRangeInRange r start stop = true ↔
    (r.pgstart ≤ start ∧ start ≤ r.pgend) ∨
      (r.pgstart ≤ stop ∧ stop ≤ r.pgend) ∨ (start ≤ r.pgstart ∧ r.pgend ≤ stop) := by
  unfold pageRangeInRange pageInRange
  rw [Bool.or_eq_true, Bool.or_eq_true, pageRangeSubsumesRange_iff, decide_eq_true_iff,
    decide_eq_true_iff, or_assoc]

section
variable {allocs : Range → Bool} {n asma pgstart pgend : Nat} {r : Range} {rest ranges : List Range}
  {lru : Lru} {ψ : Bool → Prop}

lemma Sound.tail (h : Sound n asma (r :: rest)) : Sound n asma rest where
  descending := (pairwise_cons.mp h.descending).2
  order := fun x hx => h.order x (mem_cons_of_mem r hx)
  bound := fun x hx => h.bound x (mem_cons_of_mem r hx)
  asma := fun x hx => h.asma x (mem_cons_of_mem r hx)

/-! ### `ashmem_pin` -/

lemma mem_pages_cons : p ∈ pages ψ (r :: rest) ↔
    (ψ r.purged ∧ r.pgstart ≤ p ∧ p ≤ r.pgend) ∨ p ∈ pages ψ rest := by
  constructor
  · rintro ⟨x, hx, hψ, hpx⟩
    rcases mem_cons.mp hx with rfl | hx
    · exact .inl ⟨hψ, hpx⟩
    · exact .inr ⟨x, hx, hψ, hpx⟩
  · rintro (⟨hψ, hp⟩ | ⟨x, hx, hψ, hpx⟩)
    · exact ⟨r, mem_cons_self, hψ, hp⟩
    · exact ⟨x, mem_cons_of_mem r hx, hψ, hpx⟩

/-- The ranges `xs` are what is left of `r` outside of the interval. A part of it is lost if there
is no memory for a new range. -/
structure Pieces (allocs : Range → Bool) (pgstart pgend : Nat) (r : Range) (xs : List Range) :
    Prop where
  parts : Parts Range.pgstart Range.pgend r xs
  same : ∀ x ∈ xs, x.asma = r.asma ∧ x.purged = r.purged ∧ (x.pgstart ≤ x.pgend ∨ x = r)
  outside : (∀ x : Range, x.purged = r.purged → allocs x = true) → ∀ p,
    (∃ x ∈ xs, x.pgstart ≤ p ∧ p ≤ x.pgend) ↔
      (r.pgstart ≤ p ∧ p ≤ r.pgend) ∧ ¬ (pgstart ≤ p ∧ p ≤ pgend)

lemma Pieces.pages_eq (h : Pieces allocs pgstart pgend r ranges)
    (hallocs : ∀ x : Range, ψ x.purged → allocs x = true) :
    pages ψ ranges = pages ψ [r] \ Set.Icc pgstart pgend := by
  ext p
  by_cases hψ : ψ r.purged
  · have hp := h.outside (fun x hx => hallocs x (hx ▸ hψ)) p
    constructor
    · rintro ⟨x, hx, -, hpx⟩
      obtain ⟨hin, hout⟩ := hp.mp ⟨x, hx, hpx⟩
      exact ⟨⟨r, mem_cons_self, hψ, hin⟩, hout⟩
    · rintro ⟨hin, hout⟩
      rcases mem_pages_cons.mp hin with ⟨-, hin⟩ | ⟨x, hx, -⟩
      · obtain ⟨x, hx, hpx⟩ := hp.mpr ⟨hin, hout⟩
        exact ⟨x, hx, show ψ x.purged by rwa [(h.same x hx).2.1], hpx⟩
      · cases hx
  · constructor
    · rintro ⟨x, hx, hψx, -⟩
      rw [(h.same x hx).2.1] at hψx
      exact absurd hψx hψ
    · rintro ⟨⟨x, hx, hψx, -⟩, -⟩
      rw [mem_singleton.mp hx] at hψx
      exact absurd hψx hψ

lemma Pieces.one (hstart : r.pgstart ≤ start) (hstop : stop ≤ r.pgend)
    (horder : start ≤ stop ∨ start = r.pgstart ∧ stop = r.pgend)
    (hp : ∀ p, (start ≤ p ∧ p ≤ stop) ↔
      (r.pgstart ≤ p ∧ p ≤ r.pgend) ∧ ¬ (pgstart ≤ p ∧ p ≤ pgend)) :
    Pieces allocs pgstart pgend r [{ r with pgstart := start, pgend := stop }] := by
  refine ⟨⟨pairwise_singleton _ _, ?_⟩, ?_, fun _ p => ?_⟩
  · intro x hx
    rw [mem_singleton.mp hx]
    exact ⟨hstart, hstop⟩
  · intro x hx
    rw [mem_singleton.mp hx]
    refine ⟨rfl, rfl, horder.imp_right ?_⟩
    rintro ⟨rfl, rfl⟩
    rfl
  · rw [← hp p]
    simp

def withHead (head : List Range) (purged : Bool) (after : List Range × Lru × Bool) :
    List Range × Lru × Bool := (head ++ after.1, after.2.1, purged || after.2.2)

lemma pinLoop_of_before (hbefore : ∀ r ∈ ranges, r.pgend < pgstart) :
    pinLoop allocs asma pgstart pgend ranges lru = (ranges, lru, false) := by
  cases ranges with
  | nil => rfl
  | cons r rest =>
    exact if_pos (rangeBeforePage_iff.mpr (hbefore r mem_cons_self))

/-- One turn of the loop. Where the code ends it, the ranges behind lie below the interval, and the
loop would leave them alone. -/
theorem pinLoop_cons (h : Sound n asma (r :: rest)) (hle : pgstart ≤ pgend ∨ n ≤ pgstart)
    (allocs : Range → Bool) (lru : Lru) : ∃ xs lru' flag, Pieces allocs pgstart pgend r xs ∧
      (∀ p, r.pgstart ≤ p ∧ p ≤ r.pgend → pgstart ≤ p ∧ p ≤ pgend → flag = r.purged) ∧
      (∀ others, InWord r → Accounts lru (r :: others) → Accounts lru' (xs ++ others)) ∧
      pinLoop allocs asma pgstart pgend (r :: rest) lru =
        withHead xs flag (pinLoop allocs asma pgstart pgend rest lru') := by
  have horder := h.order r mem_cons_self
  have hbound := h.bound r mem_cons_self
  have hbelow : ∀ x ∈ rest, x.pgend < r.pgstart := fun x hx => rel_of_pairwise_cons h.descending hx
  have hstops : r.pgstart ≤ pgstart → ∀ lru',
      pinLoop allocs asma pgstart pgend rest lru' = (rest, lru', false) := fun hr lru' =>
    pinLoop_of_before fun x hx => lt_of_lt_of_le (hbelow x hx) hr
  have hkeep : r.pgend < pgstart ∨ pgend < r.pgstart → Pieces allocs pgstart pgend r [r] :=
    fun hout =>
    Pieces.one (le_refl _) (le_refl _) (.inr ⟨rfl, rfl⟩) fun p => by omega
  generalize hrun : pinLoop allocs asma pgstart pgend (r :: rest) lru = result
  rw [pinLoop] at hrun
  split at hrun
  · next hbefore =>
    rw [rangeBeforePage_iff] at hbefore
    refine ⟨[r], lru, false, hkeep (.inl hbefore), fun p => by omega, fun _ _ ha => ha, ?_⟩
    rw [← hrun, hstops (by omega)]
    rfl
  next hbefore =>
  rw [rangeBeforePage_iff] at hbefore
  split at hrun
  swap
  · next hin =>
    rw [pageRangeInRange_iff] at hin
    exact ⟨[r], lru, false, hkeep (.inr (by omega)), fun p => by omega, fun _ _ ha => ha, hrun.symm⟩
  next hin =>
  rw [pageRangeInRange_iff] at hin
  split at hrun
  · next hsub =>
    rw [pageRangeSubsumesRange_iff] at hsub
    refine ⟨[], rangeDel lru r, r.purged, ⟨⟨Pairwise.nil, forall_mem_nil _⟩, forall_mem_nil _, ?_⟩,
      fun _ _ _ => rfl, fun _ hr ha => ha.rangeDel hr, hrun.symm⟩
    simp only [not_mem_nil, false_and, exists_false, false_iff]
    omega
  next hsub =>
  rw [pageRangeSubsumesRange_iff] at hsub
  split at hrun
  · exact ⟨_, _, r.purged, Pieces.one (by omega) (le_refl _) (by omega) fun p => by omega,
      fun _ _ _ => rfl,
      fun _ hr ha => ha.rangeShrink hr (by omega) (le_refl _) (by omega), hrun.symm⟩
  split at hrun
  · exact ⟨_, _, r.purged, Pieces.one (le_refl _) (by omega) (by omega) fun p => by omega,
      fun _ _ _ => rfl,
      fun _ hr ha => ha.rangeShrink hr (le_refl _) (by omega) (by omega), hrun.symm⟩
  have hlow : Pieces allocs pgstart r.pgend r [{ r with pgend := pgstart - 1 }] :=
    Pieces.one (le_refl _) (by omega) (by omega) fun p => by omega
  obtain ⟨x, hx, halloc⟩ := rangeAlloc_cases allocs lru asma r.purged (pgend + 1) r.pgend
  rcases halloc with ⟨lru1, -, hsome, hacct⟩ | ⟨hfails, hnone⟩
  · -- The new range is above the part of `r` below the interval.
    rw [hsome] at hrun
    have hxr : x.pgstart = pgend + 1 ∧ x.pgend = r.pgend ∧ x.asma = asma ∧ x.purged = r.purged := by
      rw [hx]
      exact ⟨rfl, rfl, rfl, rfl⟩
    refine ⟨[x, { r with pgend := pgstart - 1 }], (rangeShrink lru1 r r.pgstart (pgstart - 1)).2,
      r.purged,
      ⟨⟨?_, ?_⟩, ?_, ?_⟩, fun _ _ _ => rfl, ?_, ?_⟩
    · refine pairwise_cons.mpr ⟨?_, hlow.parts.1⟩
      intro y hy
      rw [mem_singleton.mp hy]
      show pgstart - 1 < x.pgstart
      omega
    · exact forall_mem_cons.mpr ⟨by omega, hlow.parts.2⟩
    · exact forall_mem_cons.mpr ⟨⟨hxr.2.2.1.trans (h.asma r mem_cons_self).symm, hxr.2.2.2,
        .inl (by omega)⟩, hlow.same⟩
    · intro _ p
      simp only [mem_cons, not_mem_nil, or_false, exists_eq_or_imp, exists_eq_left]
      omega
    · intro others hr ha
      have hnew := hacct _ ⟨by omega, by have := hr.2; omega⟩ ha
      have hcut := (hnew.perm (List.Perm.swap _ _ _)).rangeShrink hr (le_refl r.pgstart)
        (show pgstart - 1 ≤ r.pgend by omega) (by omega)
      exact hcut.perm (List.Perm.swap _ _ _)
    · rw [← hrun, hstops (by omega), withHead, Bool.or_false]
      rfl
  · rw [hnone] at hrun
    refine ⟨[{ r with pgend := pgstart - 1 }], _, r.purged,
      ⟨hlow.parts, hlow.same, fun hallocs => ?_⟩,
      fun _ _ _ => rfl, fun _ hr ha => ha.rangeShrink hr (le_refl _) (by omega) (by omega), ?_⟩
    · have := hallocs x (by rw [hx])
      rw [hfails] at this
      cases this
    · rw [← hrun, hstops (by omega), withHead, Bool.or_false]
      rfl

lemma Sound.inWord (h : Sound n asma ranges) (hn : n < wordSize) (hr : r ∈ ranges) : InWord r := by
  have hbound := h.bound r hr
  exact ⟨h.order r hr, by omega⟩

def Nonempty (ranges : List Range) : Prop := ∀ r ∈ ranges, r.pgstart ≤ r.pgend

section
variable (h : Sound n asma ranges) (hle : pgstart ≤ pgend ∨ n ≤ pgstart)
include h hle

lemma pinLoop_spec (allocs : Range → Bool) (lru : Lru) :
    ∃ yss, (pinLoop allocs asma pgstart pgend ranges lru).1 = yss.flatten ∧
      Forall₂ (Pieces allocs pgstart pgend) ranges yss ∧
      (∀ p ∈ Set.Icc pgstart pgend, p ∈ pages (fun purged => purged = true) ranges →
        (pinLoop allocs asma pgstart pgend ranges lru).2.2 = true) ∧
      (n < wordSize → ∀ others, Accounts lru (ranges ++ others) →
        Accounts (pinLoop allocs asma pgstart pgend ranges lru).2.1 (yss.flatten ++ others)) := by
  induction ranges generalizing lru with
  | nil =>
    refine ⟨[], rfl, .nil, ?_, fun _ _ ha => ha⟩
    rintro p - ⟨x, hx, -⟩
    cases hx
  | cons r rest ih =>
    obtain ⟨xs, lru', flag, hpieces, hflag, hacct, hrun⟩ := pinLoop_cons h hle allocs lru
    obtain ⟨yss, hlist, hall, hpurged, haccts⟩ := ih h.tail lru'
    rw [hrun]
    refine ⟨xs :: yss, by rw [withHead, hlist]; rfl, .cons hpieces hall, ?_, ?_⟩
    · intro p hp hin
      rcases mem_pages_cons.mp hin with ⟨hset, hpr⟩ | hin
      · exact Bool.or_eq_true_iff.mpr (.inl ((hflag p hpr hp).trans hset))
      · exact Bool.or_eq_true_iff.mpr (.inr (hpurged p hp hin))
    · intro hn others ha
      have hstep := hacct _ (h.inWord hn mem_cons_self) ha
      have hrest := haccts hn _ (hstep.perm (perm_append_comm_assoc xs rest others))
      rw [flatten_cons, append_assoc]
      exact hrest.perm (perm_append_comm_assoc _ _ _)

lemma Sound.pinLoop : Sound n asma (pinLoop allocs asma pgstart pgend ranges lru).1 := by
  obtain ⟨yss, hlist, hall, -⟩ := pinLoop_spec h hle allocs lru
  rw [hlist]
  refine ⟨h.descending.flatten (hall.imp fun _ _ hp => hp.parts), ?_, ?_, ?_⟩ <;> intro x hx <;>
    obtain ⟨r, hr, xs, hp, hx⟩ := exists_of_mem_flatten hall hx
  · rcases (hp.same x hx).2.2 with hlt | rfl
    · omega
    · exact h.order x hr
  · exact lt_of_le_of_lt (hp.parts.2 x hx).2 (h.bound r hr)
  · exact (hp.same x hx).1.trans (h.asma r hr)

lemma Accounts.pinLoop {others : List Range} (ha : Accounts lru (ranges ++ others))
    (hn : n < wordSize) :
    Accounts (pinLoop allocs asma pgstart pgend ranges lru).2.1
      ((pinLoop allocs asma pgstart pgend ranges lru).1 ++ others) := by
  obtain ⟨yss, hlist, -, -, haccts⟩ := pinLoop_spec h hle allocs lru
  rw [hlist]
  exact haccts hn others ha

/-- Pinning takes the interval out of the pages with a flag, if no range with this flag is lost for
want of memory. -/
theorem pages_pinLoop (hallocs : ∀ x : Range, ψ x.purged → allocs x = true) :
    pages ψ (pinLoop allocs asma pgstart pgend ranges lru).1 = pages ψ ranges \ Set.Icc pgstart
      pgend := by
  obtain ⟨yss, hlist, hall, -⟩ := pinLoop_spec h hle allocs lru
  rw [hlist]
  exact covered_flatten (hall.imp fun _ _ hp => hp.pages_eq hallocs)

lemma nonempty_pinLoop (hne : Nonempty ranges) :
    Nonempty (pinLoop allocs asma pgstart pgend ranges lru).1 := by
  obtain ⟨yss, hlist, hall, -⟩ := pinLoop_spec h hle allocs lru
  rw [hlist]
  intro x hx
  obtain ⟨r, hr, xs, hp, hx⟩ := exists_of_mem_flatten hall hx
  rcases (hp.same x hx).2.2 with hlt | rfl
  · exact hlt
  · exact hne x hr

end

lemma pinLoop_purged (h : Sound n asma ranges) (hp : p ∈ Set.Icc pgstart pgend)
    (hpurged : p ∈ pages (fun purged => purged = true) ranges) :
    (pinLoop allocs asma pgstart pgend ranges lru).2.2 = true := by
  obtain ⟨yss, -, -, hflag, -⟩ := pinLoop_spec h (.inl (hp.1.trans hp.2)) allocs lru
  exact hflag p hp hpurged

/-! ### `ashmem_unpin` -/

def UnpinPass.Means (pgstart pgend : Nat) (ranges : List Range) : UnpinPass → Prop
  | .subsumed => ∃ r ∈ ranges, r.pgstart ≤ pgstart ∧ pgend ≤ r.pgend
  | .merge r _ => pgstart ≤ r.pgend ∧ (r.pgstart ≤ pgstart ∨ r.pgstart ≤ pgend ∨ r.pgend ≤ pgend)
  | .insert front back =>
    ranges = front ++ back ∧ (∀ r ∈ front, pgend < r.pgstart) ∧ ∀ r ∈ back, r.pgend < pgstart

lemma unpinPass_means (pgstart pgend : Nat) (h : Sound n asma ranges) :
    (unpinPass pgstart pgend ranges).Means pgstart pgend ranges := by
  induction ranges with
  | nil => exact ⟨rfl, forall_mem_nil _, forall_mem_nil _⟩
  | cons r rest ih =>
    unfold unpinPass
    split
    · next hbefore =>
      rw [rangeBeforePage_iff] at hbefore
      have horder := h.order r mem_cons_self
      refine ⟨rfl, forall_mem_nil _, forall_mem_cons.mpr ⟨hbefore, ?_⟩⟩
      intro x hx
      have hbelow : x.pgend < r.pgstart := rel_of_pairwise_cons h.descending hx
      omega
    next hbefore =>
    rw [rangeBeforePage_iff] at hbefore
    split
    · next hsub => exact ⟨r, mem_cons_self, pageRangeSubsumedByRange_iff.mp hsub⟩
    split
    · next hin =>
      rw [pageRangeInRange_iff] at hin
      exact ⟨by omega, by omega⟩
    next hin =>
    rw [pageRangeInRange_iff] at hin
    have hrest := ih h.tail
    cases hpass : unpinPass pgstart pgend rest with
    | subsumed =>
      rw [hpass] at hrest
      obtain ⟨x, hx, hsub⟩ := hrest
      exact ⟨x, mem_cons_of_mem r hx, hsub⟩
    | merge x xs =>
      rw [hpass] at hrest
      exact hrest
    | insert front back =>
      rw [hpass] at hrest
      obtain ⟨hsplit, hfront, hback⟩ := hrest
      exact ⟨by rw [hsplit]; rfl, forall_mem_cons.mpr ⟨by omega, hfront⟩, hback⟩

lemma Icc_merge (hmeets : pgstart ≤ r.pgend ∧
    (r.pgstart ≤ pgstart ∨ r.pgstart ≤ pgend ∨ r.pgend ≤ pgend)) :
    Set.Icc (min r.pgstart pgstart) (max r.pgend pgend) = Set.Icc r.pgstart r.pgend ∪ Set.Icc
      pgstart pgend := by
  ext p
  simp only [Set.mem_Icc, Set.mem_union]
  omega

lemma Sound.of_append_cons {front back : List Range} (h : Sound n asma (front ++ r :: back)) :
    Sound n asma (front ++ back) := by
  have hmem : ∀ x ∈ front ++ back, x ∈ front ++ r :: back := fun x hx =>
    ((sublist_cons_self r back).append_left front).mem hx
  exact ⟨h.descending.remove, fun x hx => h.order x (hmem x hx), fun x hx => h.bound x (hmem x hx),
    fun x hx => h.asma x (hmem x hx)⟩

lemma mem_pages_insert {front back : List Range} : p ∈ pages ψ (front ++ r :: back) ↔
    (ψ r.purged ∧ r.pgstart ≤ p ∧ p ≤ r.pgend) ∨ p ∈ pages ψ (front ++ back) := by
  rw [pages, covered_perm perm_middle]
  exact mem_pages_cons

lemma forall_mem_insert {P : Range → Prop} {front back : List Range} (hr : P r)
    (h : ∀ x ∈ front ++ back, P x) : ∀ x ∈ front ++ r :: back, P x := fun x hx =>
  forall_mem_cons.mpr ⟨hr, h⟩ x (perm_middle.mem_iff.mp hx)

lemma Accounts.rangeDels {gone rs : List Range} (h : Accounts lru (gone ++ rs))
    (hgone : ∀ r ∈ gone, InWord r) : Accounts (gone.foldl Ashmem.rangeDel lru) rs := by
  induction gone generalizing lru with
  | nil => exact h
  | cons r gone ih =>
    obtain ⟨hr, hgone⟩ := forall_mem_cons.mp hgone
    exact ih (h.rangeDel hr) hgone

section
variable (h : Sound n asma ranges)
include h

/-- The loop merges the ranges `gone` into the interval, which grows to `lo` up to `hi`. In the end
it lies inside of a range of `left`, or is put in between them, or there is no memory for it. -/
theorem unpinLoop_spec (allocs : Range → Bool) (lru : Lru) (pgstart pgend : Nat) (purged : Bool) :
    ∃ gone left lo hi new, ranges.Perm (gone ++ left) ∧ Sound n asma left ∧
      lo ≤ pgstart ∧ pgend ≤ hi ∧ (pgend < n → hi < n) ∧
      Set.Icc lo hi = pages (fun _ => True) gone ∪ Set.Icc pgstart pgend ∧
      new = ⟨(gone.foldl rangeDel lru).fresh, asma, lo, hi, purged || gone.any Range.purged⟩ ∧
      ((∃ r ∈ left, r.pgstart ≤ lo ∧ hi ≤ r.pgend) ∧
          unpinLoop allocs asma ranges lru pgstart pgend purged =
            (0, left, gone.foldl rangeDel lru) ∨
        (∃ front back lru', left = front ++ back ∧ (∀ r ∈ front, hi < r.pgstart) ∧
          (∀ r ∈ back, r.pgend < lo) ∧
          (∀ rs, InWord new → Accounts (gone.foldl rangeDel lru) rs → Accounts lru' (new :: rs)) ∧
          unpinLoop allocs asma ranges lru pgstart pgend purged = (0, front ++ new :: back, lru')) ∨
        allocs new = false ∧ unpinLoop allocs asma ranges lru pgstart pgend purged =
          (- ENOMEM, left, gone.foldl rangeDel lru)) := by
  have hnone : ∀ lo hi : Nat, Set.Icc lo hi = pages (fun _ => True) [] ∪ Set.Icc lo hi := by
    simp [covered]
  fun_induction unpinLoop allocs asma ranges lru pgstart pgend purged with
  | case1 ranges lru pgstart pgend purged hpass =>
    have hmeans := unpinPass_means pgstart pgend h
    rw [hpass] at hmeans
    exact ⟨[], ranges, pgstart, pgend, _, .refl _, h, le_refl _, le_refl _, id, hnone _ _, rfl,
      .inl ⟨hmeans, rfl⟩⟩
  | case2 ranges lru pgstart pgend purged r rest hpass ih =>
    have hmeans := unpinPass_means pgstart pgend h
    rw [hpass] at hmeans
    obtain ⟨front, back, rfl, rfl⟩ := unpinPass_merge hpass
    have hbound := h.bound r (by simp)
    obtain ⟨gone, left, lo, hi, new, hperm, hleft, hlo, hhi, hn, hIcc, hnew, hcase⟩ :=
      ih h.of_append_cons
    refine ⟨r :: gone, left, lo, hi, new, perm_middle.trans (hperm.cons r),
      hleft, by omega, by omega,
      fun _ => hn (by omega), ?_, ?_, hcase⟩
    · rw [hIcc, Icc_merge hmeans]
      ext p
      rw [Set.mem_union, Set.mem_union, Set.mem_union, mem_pages_cons, true_and, or_left_comm,
        or_assoc]
      rfl
    · rw [hnew, Bool.or_assoc]
      rfl
  | case3 ranges lru pgstart pgend purged front back hpass r lru' halloc =>
    have hmeans := unpinPass_means pgstart pgend h
    rw [hpass] at hmeans
    obtain ⟨x, hx, ⟨lru1, -, hsome, hacct⟩ | ⟨-, hfails⟩⟩ :=
      rangeAlloc_cases allocs lru asma purged pgstart pgend
    · rw [hsome] at halloc
      cases halloc
      exact ⟨[], ranges, pgstart, pgend, r, .refl _, h, le_refl _, le_refl _, id, hnone _ _,
        by rw [hx, any_nil, Bool.or_false]; rfl,
        .inr (.inl ⟨front, back, lru', hmeans.1, hmeans.2.1, hmeans.2.2, hacct, rfl⟩)⟩
    · rw [hfails] at halloc
      cases halloc
  | case4 ranges lru pgstart pgend purged front back hpass lru' halloc =>
    obtain ⟨x, hx, ⟨lru1, -, hsome, -⟩ | ⟨hno, hfails⟩⟩ :=
      rangeAlloc_cases allocs lru asma purged pgstart pgend
    · rw [hsome] at halloc
      cases halloc
    · rw [hfails] at halloc
      cases halloc
      exact ⟨[], ranges, pgstart, pgend, x, .refl _, h, le_refl _, le_refl _, id, hnone _ _,
        by rw [hx, any_nil, Bool.or_false]; rfl, .inr (.inr ⟨hno, rfl⟩)⟩

lemma Sound.unpinLoop (hle : pgstart ≤ pgend + 1) (hbound : pgend < n) :
    Sound n asma (unpinLoop allocs asma ranges lru pgstart pgend purged).2.1 := by
  obtain ⟨gone, left, lo, hi, new, -, hleft, hlo, hhi, hn, -, rfl, ⟨-, hrun⟩ |
    ⟨front, back, lru', rfl, hfront, hback, -, hrun⟩ | ⟨-, hrun⟩⟩ :=
    unpinLoop_spec h allocs lru pgstart pgend purged
  · rw [hrun]
    exact hleft
  · rw [hrun]
    exact ⟨descending_insert hleft.descending hfront hback,
      forall_mem_insert (show lo ≤ hi + 1 by omega) hleft.order,
      forall_mem_insert (hn hbound) hleft.bound, forall_mem_insert rfl hleft.asma⟩
  · rw [hrun]
    exact hleft

lemma Accounts.unpinLoop {others : List Range} (ha : Accounts lru (ranges ++ others))
    (hn : n < wordSize) (hle : pgstart ≤ pgend + 1) (hbound : pgend < n) :
    Accounts (unpinLoop allocs asma ranges lru pgstart pgend purged).2.2
      ((unpinLoop allocs asma ranges lru pgstart pgend purged).2.1 ++ others) := by
  obtain ⟨gone, left, lo, hi, new, hperm, -, hlo, hhi, hlt, -, hnew, hcase⟩ :=
    unpinLoop_spec h allocs lru pgstart pgend purged
  have hgone : Accounts (gone.foldl Ashmem.rangeDel lru) (left ++ others) := by
    have hfirst := ha.perm (hperm.append_right others)
    rw [append_assoc] at hfirst
    exact hfirst.rangeDels fun r hr => h.inWord hn (hperm.mem_iff.mpr (mem_append_left _ hr))
  rcases hcase with ⟨-, hrun⟩ | ⟨front, back, lru', rfl, -, -, hacct, hrun⟩ | ⟨-, hrun⟩
  · rw [hrun]
    exact hgone
  · rw [hrun]
    have hword : InWord new := by
      rw [hnew]
      exact ⟨show lo ≤ hi + 1 by omega, show hi + 1 < wordSize by omega⟩
    exact (hacct _ hword hgone).perm (perm_middle.append_right others).symm
  · rw [hrun]
    exact hgone

lemma pages_unpinLoop (hallocs : ∀ x, allocs x = true) :
    (unpinLoop allocs asma ranges lru pgstart pgend purged).1 = 0 ∧
      pages (fun _ => True) (unpinLoop allocs asma ranges lru pgstart pgend purged).2.1 =
        pages (fun _ => True) ranges ∪ Set.Icc pgstart pgend := by
  obtain ⟨gone, left, lo, hi, new, hperm, -, -, -, -, hIcc, hnew, hcase⟩ :=
    unpinLoop_spec h allocs lru pgstart pgend purged
  have hpages : pages (fun _ => True) ranges ∪ Set.Icc pgstart pgend =
      pages (fun _ => True) left ∪ Set.Icc lo hi := by
    rw [hIcc, pages, covered_perm hperm, covered_append, Set.union_comm (covered _ _ _ gone),
      Set.union_assoc]
  rw [hpages]
  rcases hcase with ⟨⟨r, hr, hstart, hend⟩, hrun⟩ | ⟨front, back, lru', rfl, -, -, -, hrun⟩
    | ⟨hfails, -⟩
  · rw [hrun]
    refine ⟨rfl, (Set.union_eq_self_of_subset_right ?_).symm⟩
    intro p hp
    exact ⟨r, hr, trivial, le_trans hstart hp.1, le_trans hp.2 hend⟩
  · rw [hrun, hnew]
    refine ⟨rfl, ?_⟩
    ext p
    rw [mem_pages_insert, true_and, or_comm]
    rfl
  · rw [hallocs] at hfails
    cases hfails

/-- Unpinning keeps purged pages purged, if no purged range is lost for want of memory. -/
theorem purged_unpinLoop (hallocs : ∀ x : Range, x.purged = true → allocs x = true) :
    pages (fun f => f = true) ranges ⊆
      pages (fun f => f = true) (unpinLoop allocs asma ranges lru pgstart pgend purged).2.1 := by
  obtain ⟨gone, left, lo, hi, new, hperm, -, -, -, -, hIcc, hnew, hcase⟩ :=
    unpinLoop_spec h allocs lru pgstart pgend purged
  -- A purged page of a range that was merged lies in the interval, and the flag is set.
  have hmerged : ∀ p ∈ pages (fun f => f = true) gone, p ∈ Set.Icc lo hi ∧ new.purged = true := by
    rintro p ⟨r, hr, hflag, hp⟩
    refine ⟨by rw [hIcc]; exact .inl ⟨r, hr, trivial, hp⟩, ?_⟩
    rw [hnew]
    exact Bool.or_eq_true_iff.mpr (.inr (any_eq_true.mpr ⟨r, hr, hflag⟩))
  have hsplit : pages (fun f => f = true) ranges
      = pages (fun f => f = true) gone ∪ pages (fun f => f = true) left := by
    rw [pages, covered_perm hperm, covered_append]
  rw [hsplit]
  rcases hcase with ⟨⟨r, hr, hstart, hend⟩, hrun⟩ | ⟨front, back, lru', rfl, -, -, -, hrun⟩
    | ⟨hfails, hrun⟩
  · rw [hrun]
    -- It would lie in two ranges of the list.
    have hdisjoint := pairwise_append.mp
      ((hperm.pairwise_iff fun h => h.symm).mp h.descending.disjoint)
    refine Set.union_subset ?_ subset_rfl
    rintro p ⟨x, hx, hflag, hpx⟩
    have hin := (hmerged p ⟨x, hx, hflag, hpx⟩).1
    exact absurd ⟨le_trans hstart hin.1, le_trans hin.2 hend⟩
      (Set.disjoint_left.mp (hdisjoint.2.2 x hx r hr) hpx)
  · rw [hrun]
    rintro p (hp | hp)
    · obtain ⟨hin, hflag⟩ := hmerged p hp
      rw [hnew] at hflag ⊢
      exact mem_pages_insert.mpr (.inl ⟨hflag, hin⟩)
    · exact mem_pages_insert.mpr (.inr hp)
  · rw [hrun]
    refine Set.union_subset ?_ subset_rfl
    intro p hp
    rw [hallocs new (hmerged p hp).2] at hfails
    cases hfails

lemma nonempty_unpinLoop (hne : Nonempty ranges) (hle : pgstart ≤ pgend) :
    Nonempty (unpinLoop allocs asma ranges lru pgstart pgend purged).2.1 := by
  obtain ⟨gone, left, lo, hi, new, hperm, -, hlo, hhi, -, -, rfl, hcase⟩ :=
    unpinLoop_spec h allocs lru pgstart pgend purged
  have hleft : Nonempty left := fun x hx => hne x (hperm.mem_iff.mpr (mem_append_right _ hx))
  rcases hcase with ⟨-, hrun⟩ | ⟨front, back, lru', rfl, -, -, -, hrun⟩ | ⟨-, hrun⟩
  · rw [hrun]
    exact hleft
  · rw [hrun]
    exact forall_mem_insert (show lo ≤ hi by omega) hleft
  · rw [hrun]
    exact hleft

end

/-! ### `ashmem_get_pin_status` -/

lemma Sound.lt_of_mem_pages (h : Sound n asma (r :: rest)) (hp : p ∈ pages ψ rest) :
    p < r.pgstart := by
  obtain ⟨x, hx, -, hpx⟩ := hp
  have hbelow : x.pgend < r.pgstart := rel_of_pairwise_cons h.descending hx
  exact lt_of_le_of_lt hpx.2 hbelow

lemma statusLoop_iff (h : Sound n asma ranges) (hnonempty : Nonempty ranges)
    (hle : pgstart ≤ pgend ∨ n ≤ pgstart) : statusLoop pgstart pgend ranges = true ↔
      (pages (fun _ => True) ranges ∩ Set.Icc pgstart pgend).Nonempty := by
  induction ranges with
  | nil =>
    constructor
    · intro hstatus
      cases hstatus
    · rintro ⟨p, ⟨x, hx, -⟩, -⟩
      cases hx
  | cons r rest ih =>
    have hr := hnonempty r mem_cons_self
    have hbound := h.bound r mem_cons_self
    have hih := ih h.tail fun x hx => hnonempty x (mem_cons_of_mem r hx)
    rw [statusLoop]
    split
    · next hbefore =>
      rw [rangeBeforePage_iff] at hbefore
      constructor
      · intro hfalse
        cases hfalse
      rintro ⟨p, hp, hlo, -⟩
      rcases mem_pages_cons.mp hp with ⟨-, hpr⟩ | hp
      · omega
      · have := h.lt_of_mem_pages hp
        omega
    next hbefore =>
    rw [rangeBeforePage_iff] at hbefore
    split
    · next hin =>
      rw [pageRangeInRange_iff] at hin
      refine ⟨fun _ => ⟨max r.pgstart pgstart, mem_pages_cons.mpr (.inl ⟨trivial, ?_⟩), ?_⟩,
        fun _ => rfl⟩
      · omega
      · constructor <;> omega
    next hin =>
    rw [pageRangeInRange_iff] at hin
    rw [hih]
    constructor
    · rintro ⟨p, hp, hpi⟩
      exact ⟨p, mem_pages_cons.mpr (.inr hp), hpi⟩
    · rintro ⟨p, hp, hlo, hhi⟩
      rcases mem_pages_cons.mp hp with ⟨-, hpr⟩ | hp
      · omega
      · exact ⟨p, hp, hlo, hhi⟩

end

end Wm8850.Ashmem
