import Mathlib.Algebra.Ring.Nat
import Mathlib.Order.Interval.Finset.Nat

/-! # Intervals packed into a range, and the holes between them

Items with a `start` and a `stop` are `Packed lo hi` when they are nonempty intervals in increasing
order inside `lo .. hi`. `holes` lists the free intervals before, between and after them. -/

namespace Wm8850.Lib

open List

variable {n lo hi : Nat} {l : List Nat} {lo' : Nat} {β : Type} {start' stop' : β → Nat}

/-! ### Maxima of lists of numbers -/

/-- The greatest element, or 0. -/
def maxOf (l : List Nat) : Nat := l.foldr max 0

@[simp] lemma maxOf_nil : maxOf [] = 0 := rfl

@[simp] lemma maxOf_cons (n : Nat) (l : List Nat) : maxOf (n :: l) = max n (maxOf l) := rfl

@[simp] lemma maxOf_append (l k : List Nat) : maxOf (l ++ k) = max (maxOf l) (maxOf k) := by
  induction l with
  | nil => simp
  | cons n l ih => simp [ih]

lemma foldl_max_eq {α : Type} (f : α → Nat) (l : List α) (m : Nat) :
    l.foldl (fun m a => max m (f a)) m = max m (maxOf (l.map f)) := by
  induction l generalizing m with
  | nil => simp
  | cons a l ih => simp [ih]

lemma le_maxOf_of_mem (h : n ∈ l) : n ≤ maxOf l := by
  induction l with
  | nil => simp at h
  | cons k l ih =>
    rcases mem_cons.mp h with rfl | h
    · simp
    · exact le_max_of_le_right (ih h)

lemma maxOf_perm {k : List Nat} (h : l.Perm k) : maxOf l = maxOf k := by
  induction h with
  | nil => rfl
  | cons n _ ih => rw [maxOf_cons, maxOf_cons, ih]
  | swap n m l => simp only [maxOf_cons, max_left_comm]
  | trans _ _ ih1 ih2 => exact ih1.trans ih2

lemma exists_mem_of_le_maxOf (hn : 0 < n) (h : n ≤ maxOf l) : ∃ k ∈ l, n ≤ k := by
  induction l with
  | nil => simp at h; omega
  | cons k l ih =>
    rw [maxOf_cons, le_max_iff] at h
    rcases h with h | h
    · exact ⟨k, by simp, h⟩
    · obtain ⟨j, hj, hle⟩ := ih h
      exact ⟨j, by simp [hj], hle⟩

/-! ### Packed lists -/

section
variable {α : Type} (start stop : α → Nat)

/-- The items of the list are nonempty, in increasing order and apart, and lie in
`lo .. hi`. -/
def Packed : Nat → Nat → List α → Prop
  | lo, hi, [] => lo ≤ hi
  | lo, hi, x :: xs => lo ≤ start x ∧ start x < stop x ∧ Packed (stop x) hi xs

/-- The free intervals of `lo .. hi`, in order. A hole between two adjacent items is empty. -/
def holes : Nat → Nat → List α → List (Nat × Nat)
  | lo, hi, [] => [(lo, hi)]
  | lo, hi, x :: xs => (lo, start x) :: holes (stop x) hi xs

/-- The length of an interval. -/
def width (p : Nat × Nat) : Nat := p.2 - p.1

/-- The width of the largest hole. -/
def maxHole (lo hi : Nat) (xs : List α) : Nat := maxOf ((holes start stop lo hi xs).map width)

def lastStop : Nat → List α → Nat
  | lo, [] => lo
  | _, x :: xs => lastStop (stop x) xs

def firstStart (hi : Nat) : List α → Nat
  | [] => hi
  | x :: _ => start x

variable {start stop} {xs ys : List α} (h : Packed start stop lo hi xs)
include h

lemma Packed.le : lo ≤ hi := by
  induction xs generalizing lo with
  | nil => exact h
  | cons x xs ih =>
    have := ih h.2.2
    obtain ⟨h1, h2, -⟩ := h
    omega

lemma Packed.mono (hle : lo' ≤ lo) : Packed start stop lo' hi xs := by
  cases xs with
  | nil => exact le_trans hle h
  | cons x xs => exact ⟨le_trans hle h.1, h.2⟩

lemma Packed.mem_bounds {x : α} (hx : x ∈ xs) : lo ≤ start x ∧ start x < stop x ∧ stop x ≤ hi := by
  induction xs generalizing lo with
  | nil => simp at hx
  | cons y xs ih =>
    rcases mem_cons.mp hx with rfl | hx
    · exact ⟨h.1, h.2.1, h.2.2.le⟩
    · have := ih h.2.2 hx
      obtain ⟨h1, h2, -⟩ := h
      omega

lemma Packed.length_le : lo + xs.length ≤ hi := by
  induction xs generalizing lo with
  | nil => exact h
  | cons x xs ih =>
    have hrec := ih h.2.2
    have h1 := h.1
    have h2 := h.2.1
    rw [length_cons]
    omega

lemma Packed.pairwise : xs.Pairwise fun x y => stop x ≤ start y := by
  induction xs generalizing lo with
  | nil => exact List.Pairwise.nil
  | cons x xs ih =>
    refine List.Pairwise.cons (fun y hy => ?_) (ih h.2.2)
    exact (h.2.2.mem_bounds hy).1

/-! ### Holes -/

lemma sum_holes_add_sum_items :
    ((holes start stop lo hi xs).map width).sum + (xs.map fun x => stop x - start x).sum =
      hi - lo := by
  induction xs generalizing lo with
  | nil => simp [holes, width]
  | cons x xs ih =>
    have hrec := ih h.2.2
    have hle := h.2.2.le
    obtain ⟨h1, h2, -⟩ := h
    simp only [holes, width, map_cons, sum_cons] at hrec ⊢
    omega

lemma Packed.holes_sorted : (∀ p ∈ holes start stop lo hi xs, lo ≤ p.1) ∧
      (holes start stop lo hi xs).Pairwise fun p q => p.1 ≤ q.1 := by
  induction xs generalizing lo with
  | nil => simp [holes]
  | cons x xs ih =>
    obtain ⟨hge, hsorted⟩ := ih h.2.2
    have h1 := h.1
    have h2 := h.2.1
    have hlo : ∀ p ∈ holes start stop (stop x) hi xs, lo ≤ p.1 := by
      intro p hp
      have := hge p hp
      omega
    refine ⟨fun p hp => ?_, hsorted.cons hlo⟩
    rcases mem_cons.mp hp with rfl | hp
    · exact le_refl _
    · exact hlo p hp

lemma Packed.holes_le {p : Nat × Nat} (hp : p ∈ holes start stop lo hi xs) : p.2 ≤ hi := by
  induction xs generalizing lo with
  | nil =>
    rw [holes, mem_singleton] at hp
    rw [hp]
  | cons x xs ih =>
    rcases mem_cons.mp hp with rfl | hp
    · have h2 := h.2.1
      have h3 := h.2.2.le
      omega
    · exact ih h.2.2 hp

omit h

lemma Packed.append_iff : Packed start stop lo hi (xs ++ ys) ↔
    Packed start stop lo (lastStop stop lo xs) xs ∧
        Packed start stop (lastStop stop lo xs) hi ys := by
  induction xs generalizing lo with
  | nil => simp [Packed, lastStop]
  | cons x xs ih =>
    simp only [cons_append, Packed, ih]
    tauto

lemma Packed.insert {x : α} (h : Packed start stop lo hi (xs ++ ys))
    (hs : start x = lastStop stop lo xs) (hne : start x < stop x)
    (hroom : stop x ≤ firstStart start hi ys) : Packed start stop lo hi (xs ++ x :: ys) := by
  rw [Packed.append_iff] at h ⊢
  refine ⟨h.1, by omega, hne, ?_⟩
  cases ys with
  | nil => exact hroom
  | cons y ys => exact ⟨hroom, h.2.2⟩

lemma Packed.sublist (h : Packed start stop lo hi ys) (hs : xs.Sublist ys) :
    Packed start stop lo hi xs := by
  induction hs generalizing lo with
  | slnil => exact h
  | cons y _ ih => exact (ih h.2.2).mono (by have h1 := h.1; have h2 := h.2.1; omega)
  | cons_cons y _ ih => exact ⟨h.1, h.2.1, ih h.2.2⟩

lemma maxHole_le_of_sublist (hs : xs.Sublist ys) (h : Packed start stop lo hi ys) (hle : lo' ≤ lo) :
    maxHole start stop lo hi ys ≤ maxHole start stop lo' hi xs := by
  induction hs generalizing lo lo' with
  | slnil =>
    simp only [maxHole, holes, width, map_cons, maxOf_cons]
    omega
  | @cons xs ys y hs ih =>
    have h1 := h.1
    have h2 := h.2.1
    have hrec := ih h.2.2 (show lo' ≤ stop y by omega)
    -- The hole before `y` fits into the first hole of the shorter list.
    have hfirst : start y - lo ≤ maxHole start stop lo' hi xs := by
      cases xs with
      | nil =>
        have := h.2.2.le
        simp only [maxHole, holes, width, map_cons, maxOf_cons]
        omega
      | cons x xs =>
        have hx := h.2.2.mem_bounds (hs.subset (by simp : x ∈ x :: xs))
        simp only [maxHole, holes, width, map_cons, maxOf_cons]
        omega
    simp only [maxHole, holes, width, map_cons, maxOf_cons] at hrec hfirst ⊢
    omega
  | cons_cons y hs ih =>
    have hrec := ih h.2.2 (le_refl _)
    simp only [maxHole, holes, width, map_cons, maxOf_cons] at hrec ⊢
    omega

/-! ### First fit -/

variable (start stop) in
def fitSplit (n : Nat) : Nat → List α → Option (List α × α × List α)
  | _, [] => none
  | lo, x :: xs =>
    if n ≤ start x - lo then some ([], x, xs)
    else (fitSplit n (stop x) xs).map fun (pre, y, post) => (x :: pre, y, post)

lemma fitSplit_some (hi : Nat) {pre post : List α} {x : α}
    (h : fitSplit start stop n lo xs = some (pre, x, post)) :
    xs = pre ++ x :: post ∧ n ≤ start x - lastStop stop lo pre ∧
      (holes start stop lo hi xs).find? (fun p => decide (n ≤ width p))
        = some (lastStop stop lo pre, start x) := by
  induction xs generalizing lo pre with
  | nil => simp [fitSplit] at h
  | cons y ys ih =>
    unfold fitSplit at h
    split at h
    · next hfit =>
      obtain ⟨rfl, rfl, rfl⟩ := h
      exact ⟨rfl, hfit, by simp [holes, width, lastStop, hfit]⟩
    next hfit =>
    simp only [Option.map_eq_some_iff] at h
    obtain ⟨⟨pre', x', post'⟩, hrec, rfl, rfl, rfl⟩ := h
    obtain ⟨hsplit, hroom, hfind⟩ := ih hrec
    refine ⟨by rw [hsplit]; rfl, hroom, ?_⟩
    simpa [holes, width, lastStop, hfit] using hfind

lemma fitSplit_none (hi : Nat) (h : fitSplit start stop n lo xs = none) :
    (holes start stop lo hi xs).find? (fun p => decide (n ≤ width p))
      = if n ≤ hi - lastStop stop lo xs then some (lastStop stop lo xs, hi) else none := by
  induction xs generalizing lo with
  | nil =>
    by_cases hfit : n ≤ hi - lo <;> simp [holes, width, lastStop, hfit]
  | cons y ys ih =>
    unfold fitSplit at h
    split at h
    · simp at h
    next hfit =>
    have hskip : ¬ decide (n ≤ width (lo, start y)) = true :=
      fun h => hfit (of_decide_eq_true h)
    rw [holes, find?_cons_of_neg (p := fun p => decide (n ≤ width p)) hskip]
    exact ih (by simpa using h)

/-! ### Lists that place their items alike -/

section
variable (f : α → β) (hs : ∀ x, start' (f x) = start x) (he : ∀ x, stop' (f x) = stop x)
include hs he

lemma packed_map : Packed start' stop' lo hi (xs.map f) ↔ Packed start stop lo hi xs := by
  induction xs generalizing lo with
  | nil => simp [Packed]
  | cons x xs ih => simp [Packed, hs, he, ih]

lemma holes_map : holes start' stop' lo hi (xs.map f) = holes start stop lo hi xs := by
  induction xs generalizing lo with
  | nil => simp [holes]
  | cons x xs ih => simp [holes, hs, he, ih]

end

lemma maxHole_scale {start' stop' : α → Nat} {c : Nat}
    (hs : ∀ x ∈ xs, start' x = start x * c) (he : ∀ x ∈ xs, stop' x = stop x * c) :
    maxHole start' stop' (lo * c) (hi * c) xs = maxHole start stop lo hi xs * c := by
  unfold maxHole
  induction xs generalizing lo with
  | nil => simp [holes, width, Nat.sub_mul]
  | cons x xs ih =>
    have hrec := @ih (stop x) (fun y hy => hs y (by simp [hy]))
      (fun y hy => he y (by simp [hy]))
    simp only [holes, width, map_cons, maxOf_cons, hs x (by simp), he x (by simp)]
    rw [hrec, ← Nat.sub_mul, Nat.mul_max_mul_right]

end

/-! ### Disjoint ranges -/

def Apart (p q : Nat × Nat) : Prop := p.2 ≤ q.1 ∨ q.2 ≤ p.1

lemma Apart.symm {p q : Nat × Nat} (h : Apart p q) : Apart q p := Or.symm h

lemma apart_of_mem {β : Type} {f : β → Nat × Nat} {l : List β}
    (h : l.Pairwise fun x y => Apart (f x) (f y))
    {x y : β} (hx : x ∈ l) (hy : y ∈ l) (hne : x ≠ y) : Apart (f x) (f y) := by
  have hsymm : Std.Symm fun x y => Apart (f x) (f y) := ⟨fun _ _ => Apart.symm⟩
  exact h.forall hx hy hne

lemma sum_width_le_of_disjoint {l : List (Nat × Nat)} (hdisj : l.Pairwise Apart)
    (hle : ∀ p ∈ l, p.2 ≤ n) : (l.map width).sum ≤ n := by
  -- The ranges are pairwise disjoint finite sets, and their union lies in `0 .. n`.
  suffices h : ∃ s : Finset Nat, s.card = (l.map width).sum ∧
      ∀ i, i ∈ s ↔ ∃ p ∈ l, i ∈ Finset.Ico p.1 p.2 by
    obtain ⟨s, hcard, hmem⟩ := h
    rw [← hcard]
    have hsub : s ⊆ Finset.range n := by
      intro i hi
      obtain ⟨p, hp, hip⟩ := (hmem i).mp hi
      have := hle p hp
      simp only [Finset.mem_Ico] at hip
      exact Finset.mem_range.mpr (by omega)
    calc s.card ≤ (Finset.range n).card := Finset.card_le_card hsub
      _ = n := Finset.card_range n
  clear hle
  induction l with
  | nil => exact ⟨∅, by simp⟩
  | cons p l ih =>
    rw [pairwise_cons] at hdisj
    obtain ⟨s, hcard, hmem⟩ := ih hdisj.2
    have hdis : Disjoint (Finset.Ico p.1 p.2) s := by
      rw [Finset.disjoint_left]
      intro i hip his
      obtain ⟨q, hq, hiq⟩ := (hmem i).mp his
      have hpq := hdisj.1 q hq
      simp only [Finset.mem_Ico] at hip hiq
      rcases hpq with hpq | hpq <;> omega
    refine ⟨Finset.Ico p.1 p.2 ∪ s, ?_, fun i => ?_⟩
    · rw [Finset.card_union_of_disjoint hdis, hcard]
      simp [width]
    · rw [Finset.mem_union, hmem]
      simp

end Wm8850.Lib
