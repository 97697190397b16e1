import Wm8850.Proofs.Ashmem.Runs

/-! # How much `ashmem_shrink` purges

The pages that are left to scan are counted in an unsigned word, so `nr_to_scan <= 0` ends the loop
only when the count is exactly `0`. A range with more pages than are left wraps the count, and the
loop goes on. -/

namespace Wm8850.Ashmem

open Lib List

variable {s t : State} {calls : List Truncate} {nr k : Nat} {sizes : List Nat}

/-- A field of the range with the address `id`. -/
def State.read {α : Type} (s : State) (f : Range → α) (id : Nat) : Option α :=
  (s.ranges.find? fun r => r.id == id).map f

/-- The pages of the range with the address `id`. -/
def State.sizeOf (s : State) (id : Nat) : Nat := (s.read rangeSize id).getD 0

/-- The pages of the ranges in the lru list, the least recently unpinned range first. -/
def State.lruSizes (s : State) : List Nat := s.lru.ranges.map s.sizeOf

/-- The number of ranges that a loop takes that subtracts with `sub`. -/
def taken (sub : Nat → Nat → Nat) : Nat → List Nat → Nat
  | _, [] => 0
  | nr, n :: ns => if sub nr n ≤ 0 then 1 else taken sub (sub nr n) ns + 1

/-- The length of the shortest prefix with `nr` pages or more, or of the whole list if it has
fewer. -/
def shortest (nr : Nat) (sizes : List Nat) : Nat := taken (· - ·) nr sizes

/-- The range with its mark if it is one of `ids`. -/
def markPurged (ids : List Nat) (r : Range) : Range :=
  if r.id ∈ ids then { r with purged := true } else r

/-- The first `k` ranges of the lru list are purged, and no others: their pages are given back, they
leave the list, and they are marked. -/
structure PurgesFirst (s t : State) (calls : List Truncate) (k : Nat) : Prop where
  truncates : calls.map some = (s.lru.ranges.take k).map (s.read truncateOf)
  lru : t.lru.ranges = s.lru.ranges.drop k
  ranges : t.ranges = s.ranges.map (markPurged (s.lru.ranges.take k))

/-! ### The loop -/

/-- A purge sets a flag of the range and keeps the rest. -/
lemma purge_read {α : Type} {f : Range → α} (s : State) (r : Range)
    (hf : f ∘ setPurged r.id = f) : (purge s r).read f = s.read f := by
  funext id
  unfold State.read
  rw [purge_ranges, find?_map, Option.map_map, hf]
  simp only [Function.comp_def, (marks_setPurged r.id).id]

lemma purge_sizeOf (s : State) (r : Range) : (purge s r).sizeOf = s.sizeOf := by
  have hmarks := marks_setPurged r.id
  unfold State.sizeOf
  rw [purge_read]
  funext x
  simp only [Function.comp, rangeSize, hmarks.pgstart, hmarks.pgend]

lemma purge_truncateOf (s : State) (r : Range) :
    (purge s r).read truncateOf = s.read truncateOf := by
  have hmarks := marks_setPurged r.id
  apply purge_read
  funext x
  simp only [Function.comp, truncateOf, hmarks.asma, hmarks.pgstart, hmarks.pgend]

lemma markPurged_setPurged (id : Nat) (ids : List Nat) (r : Range) :
    markPurged ids (setPurged id r) = markPurged (id :: ids) r := by
  unfold markPurged setPurged
  by_cases hid : r.id = id
  · simp [hid]
  · simp [hid]

lemma PurgesFirst.zero (s : State) : PurgesFirst s s [] 0 := by
  refine ⟨rfl, rfl, (map_id _).symm.trans (map_congr_left fun x _ => ?_)⟩
  exact (if_neg not_mem_nil).symm

/-- A purge of the first range, and then of the first `k` ranges that are left. -/
lemma PurgesFirst.cons {r : Range} (hfind : s.ranges.find? (fun x => x.id == r.id) = some r)
    (hhead : s.lru.ranges = r.id :: (purge s r).lru.ranges)
    (h : PurgesFirst (purge s r) t calls k) : PurgesFirst s t (truncateOf r :: calls) (k + 1) where
  truncates := by
    rw [map_cons, h.truncates, purge_truncateOf, hhead, take_succ_cons, map_cons, State.read, hfind]
    rfl
  lru := by rw [h.lru, hhead, drop_succ_cons]
  ranges := by
    rw [h.ranges, purge_ranges, map_map, hhead, take_succ_cons]
    exact map_congr_left fun x _ => markPurged_setPurged r.id _ x

lemma shrinkLoop_first (nr : Nat) {ids : List Nat} (hids : s.lru.ranges = ids)
    (hlive : ∀ id ∈ ids, id ∈ s.ranges.map Range.id) :
    PurgesFirst s (shrinkLoop ids nr s).1 (shrinkLoop ids nr s).2
      (taken wsub nr (ids.map s.sizeOf)) := by
  induction ids generalizing s nr with
  | nil => exact PurgesFirst.zero s
  | cons id ids ih =>
    obtain ⟨r, hfind, -, rfl⟩ := exists_find (hlive id mem_cons_self)
    have hrest : (purge s r).lru.ranges = ids := by
      show s.lru.ranges.erase r.id = ids
      rw [hids, erase_cons_head]
    have hhead : s.lru.ranges = r.id :: (purge s r).lru.ranges := by rw [hids, hrest]
    have hsize : s.sizeOf r.id = rangeSize r := by simp [State.sizeOf, State.read, hfind]
    rw [shrinkLoop, hfind, map_cons, taken, hsize]
    dsimp only
    split
    · exact (PurgesFirst.zero _).cons hfind hhead
    refine PurgesFirst.cons hfind hhead ?_
    rw [← purge_sizeOf s r]
    refine ih _ hrest fun id' hid' => ?_
    have hid : Range.id ∘ setPurged r.id = Range.id := funext (marks_setPurged r.id).id
    rw [purge_ranges, map_map, hid]
    exact hlive id' (mem_cons_of_mem _ hid')

/-! ### Where it stops -/

lemma taken_le (sub : Nat → Nat → Nat) (nr : Nat) (sizes : List Nat) :
    taken sub nr sizes ≤ sizes.length := by
  induction sizes generalizing nr with
  | nil => exact le_refl 0
  | cons n ns ih =>
    unfold taken
    split
    · exact Nat.le_add_left 1 _
    · exact Nat.succ_le_succ (ih _)

lemma taken_eq_iff (hnr : nr < wordSize) (hsizes : ∀ n ∈ sizes, n < wordSize) :
    taken wsub nr sizes = shortest nr sizes ↔
      (sizes.take (shortest nr sizes)).sum = nr ∨ shortest nr sizes = sizes.length := by
  unfold shortest
  induction sizes generalizing nr with
  | nil => simp [taken]
  | cons n ns ih =>
    have hn := hsizes n mem_cons_self
    rw [taken, taken]
    by_cases hle : nr ≤ n
    · rw [if_pos (show nr - n ≤ 0 by omega), take_succ_cons, take_zero, sum_singleton]
      by_cases heq : n = nr
      · subst heq
        simp [wsub_of_le (le_refl n) hnr]
      -- the count wraps, so the loop goes on if there is another range
      have hwrap : ¬wsub nr n ≤ 0 := by
        unfold wsub wordSize at *
        omega
      rw [if_neg hwrap]
      cases ns with
      | nil => simp [taken]
      | cons m ms =>
        rw [taken]
        simp only [heq, false_or, length_cons]
        split <;> omega
    · have hsub : wsub nr n = nr - n := wsub_of_le (by omega) hnr
      rw [if_neg (show ¬nr - n ≤ 0 by omega), hsub, if_neg (by omega), take_succ_cons, sum_cons,
        length_cons, Nat.add_right_cancel_iff, Nat.add_right_cancel_iff, ih (by omega) fun m hm =>
          hsizes m (mem_cons_of_mem _ hm)]
      exact or_congr (by omega) Iff.rfl

/-- If the lru list has ranges of the areas, as in every state of a run, then `ashmem_shrink` purges
exactly the shortest prefix if and only if that prefix has exactly `nr` pages or is the whole
list. -/
theorem ashmemShrink_shortest_iff (s : State)
    (hlive : ∀ id ∈ s.lru.ranges, id ∈ s.ranges.map Range.id)
    (nr : Nat) (hpos : 0 < nr) (hnr : nr < wordSize) :
    let after := ashmemShrink s nr true
    PurgesFirst s after.2.1 after.2.2 (shortest nr s.lruSizes) ↔
      (s.lruSizes.take (shortest nr s.lruSizes)).sum = nr ∨
        shortest nr s.lruSizes = s.lruSizes.length := by
  intro after
  have hsizes : ∀ n ∈ s.lruSizes, n < wordSize := by
    intro n hn
    obtain ⟨id, -, rfl⟩ := mem_map.mp hn
    unfold State.sizeOf State.read
    cases s.ranges.find? fun r => r.id == id with
    | none => decide
    | some r => exact Nat.mod_lt _ (by decide)
  have hrun : PurgesFirst s after.2.1 after.2.2 (taken wsub nr s.lruSizes) := by
    unfold after ashmemShrink
    rw [if_neg (by simp), if_neg (by omega)]
    exact shrinkLoop_first nr rfl hlive
  rw [← taken_eq_iff hnr hsizes]
  refine ⟨fun h => ?_, fun h => h ▸ hrun⟩
  -- two prefixes that leave the same rest are the same
  have hlen := congrArg length (hrun.lru.symm.trans h.lru)
  have hs := taken_le wsub nr s.lruSizes
  have hk : shortest nr s.lruSizes ≤ _ := taken_le _ nr s.lruSizes
  rw [length_drop, length_drop] at hlen
  rw [State.lruSizes, length_map] at hs hk
  unfold State.lruSizes at *
  omega

/-- Two areas with unpinned ranges of three pages and of one page. -/
def twoUnpinned : State :=
  ⟨[⟨12288, true, [⟨0, 0, 0, 2, false⟩]⟩, ⟨4096, true, [⟨1, 1, 0, 0, false⟩]⟩], ⟨[0, 1], 4, 2⟩⟩

/-- Three pages are the first range, whose bytes are truncated and which alone is marked. -/
theorem ashmemShrink_three :
    PurgesFirst twoUnpinned (ashmemShrink twoUnpinned 3 true).2.1 [⟨0, 0, 12287⟩] 1 :=
  (ashmemShrink_shortest_iff twoUnpinned (by decide) 3 (by decide) (by decide)).mpr
    (.inl (by decide))

/-- The first range has more than the two pages that are asked for, and the second one is purged as
well. -/
theorem ashmemShrink_two_purges_all : shortest 2 twoUnpinned.lruSizes = 1 ∧
    let after := ashmemShrink twoUnpinned 2 true
    after.2.1.lru.ranges = [] ∧ ¬PurgesFirst twoUnpinned after.2.1 after.2.2 1 :=
  ⟨by decide, by decide, fun h => absurd h.lru (by decide)⟩

end Wm8850.Ashmem
