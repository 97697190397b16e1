import Mathlib.Data.List.Forall2
import Mathlib.Data.Set.Lattice
import Mathlib.Order.CompletePartialOrder

/-! # Descending lists of intervals

A record `x` stands for the closed, possibly empty interval from `lo x` to `hi x`, and a list is in
descending order without overlaps (`Descending`). `covered φ l` is the set of the numbers in the
records with `φ`. Such a list changes in two ways: each record is replaced by parts of it (`Parts`),
or one is put in at a gap (`descending_insert`). -/

namespace Wm8850.Lib

open List

section
variable {α : Type} {lo hi : α → Nat} {φ : α → Prop} {x y : α} {xs ys front back : List α}
  {yss : List (List α)} {p : Nat}

/-- Each interval ends before the ones that stand before it start. -/
def Descending (lo hi : α → Nat) (xs : List α) : Prop := xs.Pairwise fun x y => hi y < lo x

def covered (lo hi : α → Nat) (φ : α → Prop) (xs : List α) : Set Nat :=
  { p | ∃ x ∈ xs, φ x ∧ p ∈ Set.Icc (lo x) (hi x) }

lemma covered_append : covered lo hi φ (xs ++ ys) = covered lo hi φ xs ∪ covered lo hi φ ys := by
  ext p
  simp [covered, or_and_right, exists_or]

lemma covered_perm (h : xs.Perm ys) : covered lo hi φ xs = covered lo hi φ ys := by
  simp [covered, h.mem_iff]

lemma Descending.remove (h : Descending lo hi (front ++ x :: back)) :
    Descending lo hi (front ++ back) :=
  h.sublist ((sublist_cons_self x back).append_left front)

/-- The list `ys` consists of parts of `x`. -/
def Parts (lo hi : α → Nat) (x : α) (ys : List α) : Prop :=
  Descending lo hi ys ∧ ∀ y ∈ ys, lo x ≤ lo y ∧ hi y ≤ hi x

lemma exists_of_mem_flatten {R : α → List α → Prop} (h : Forall₂ R xs yss) (hy : y ∈ yss.flatten) :
    ∃ x ∈ xs, ∃ ys, R x ys ∧ y ∈ ys := by
  induction h with
  | nil => cases hy
  | cons hR _ ih =>
    rcases mem_append.mp hy with hy | hy
    · exact ⟨_, mem_cons_self, _, hR, hy⟩
    · obtain ⟨x, hx, hrest⟩ := ih hy
      exact ⟨x, mem_cons_of_mem _ hx, hrest⟩

lemma Descending.flatten (h : Descending lo hi xs) (hparts : Forall₂ (Parts lo hi) xs yss) :
    Descending lo hi yss.flatten := by
  induction hparts with
  | nil => exact h
  | cons hx hrest ih =>
    obtain ⟨hbelow, htail⟩ := pairwise_cons.mp h
    refine pairwise_append.mpr ⟨hx.1, ih htail, ?_⟩
    intro y hy z hz
    obtain ⟨w, hw, ys, hparts, hz⟩ := exists_of_mem_flatten hrest hz
    have hwx := hbelow w hw
    have hxy := (hx.2 y hy).1
    have hzw := (hparts.2 z hz).2
    omega

lemma covered_flatten {S : Set Nat}
    (h : Forall₂ (fun x ys => covered lo hi φ ys = covered lo hi φ [x] \ S) xs yss) :
    covered lo hi φ yss.flatten = covered lo hi φ xs \ S := by
  induction h with
  | nil => simp [covered]
  | cons hx _ ih =>
    rw [flatten_cons, covered_append, hx, ih, ← Set.union_sdiff_distrib, ← covered_append]
    rfl

lemma descending_insert (h : Descending lo hi (front ++ back)) (hfront : ∀ y ∈ front, hi x < lo y)
    (hback : ∀ y ∈ back, hi y < lo x) : Descending lo hi (front ++ x :: back) := by
  obtain ⟨hf, hb, hfb⟩ := pairwise_append.mp h
  refine pairwise_append.mpr ⟨hf, pairwise_cons.mpr ⟨hback, hb⟩, ?_⟩
  intro y hy z hz
  rcases mem_cons.mp hz with rfl | hz
  · exact hfront y hy
  · exact hfb y hy z hz

lemma Descending.disjoint (h : Descending lo hi xs) :
    xs.Pairwise fun x y => Disjoint (Set.Icc (lo x) (hi x)) (Set.Icc (lo y) (hi y)) := by
  refine h.imp ?_
  intro x y hxy
  rw [Set.disjoint_left]
  intro p hx hy
  have h1 := hx.1
  have h2 := hy.2
  omega

end

end Wm8850.Lib
