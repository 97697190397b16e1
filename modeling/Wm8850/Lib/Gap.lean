import Mathlib.Data.Finset.Card
import Mathlib.Order.Bounds.Basic

/-! # The first number that is not in use

`firstGap` walks over an increasing list and stops in front of the first entry that is greater than
the next free number. -/

namespace Wm8850.Lib

open List

def firstGap : List Nat → Nat → Nat
  | [], d => d
  | x :: xs, d => if d < x then d else firstGap xs (x + 1)

variable {l : List Nat} {d : Nat}

lemma isLeast_firstGap (hl : l.Pairwise (· < ·)) (hd : ∀ x ∈ l, d ≤ x + 1) :
    IsLeast {x | d ≤ x ∧ x ∉ l} (firstGap l d) := by
  induction l generalizing d with
  | nil => exact ⟨⟨le_refl d, not_mem_nil⟩, fun x hx => hx.1⟩
  | cons y ys ih =>
    obtain ⟨hy, hys⟩ := pairwise_cons.mp hl
    rw [firstGap]
    split
    · next hlt =>
      refine ⟨⟨le_refl d, ?_⟩, fun x hx => hx.1⟩
      intro hmem
      rcases mem_cons.mp hmem with rfl | hmem
      · exact lt_irrefl _ hlt
      · have := hy d hmem
        omega
    have hys' : ∀ z ∈ ys, y + 1 ≤ z + 1 := fun z hz => by have := hy z hz; omega
    obtain ⟨⟨hle, hnot⟩, hmin⟩ := ih hys hys'
    have hdy := hd y mem_cons_self
    refine ⟨⟨by omega, ?_⟩, fun x hx => hmin ⟨?_, fun hmem => hx.2 (mem_cons_of_mem y hmem)⟩⟩
    · intro hmem
      rcases mem_cons.mp hmem with heq | hmem
      · omega
      · exact hnot hmem
    · -- `y` is in use, so the next candidate is above it
      have hxy : x ≠ y := fun heq => hx.2 (heq ▸ mem_cons_self)
      have hdx := hx.1
      omega

lemma firstGap_le (hl : l.Pairwise (· < ·)) (hd : ∀ x ∈ l, d ≤ x + 1) :
    firstGap l d ≤ d + l.length := by
  induction l generalizing d with
  | nil => exact le_refl d
  | cons x xs ih =>
    obtain ⟨hx, hxs⟩ := pairwise_cons.mp hl
    rw [firstGap, length_cons]
    split
    · omega
    · have := ih hxs (fun z hz => by have := hx z hz; omega : ∀ z ∈ xs, x + 1 ≤ z + 1)
      omega

lemma length_le_of_aligned (k : Nat) {m : Nat} (hl : l.Nodup)
    (h : ∀ x ∈ l, x % k = 0 ∧ x < k * m) : l.length ≤ m := by
  have hinj : ∀ x ∈ l, ∀ y ∈ l, x / k = y / k → x = y := by
    intro x hx y hy hxy
    rw [← Nat.div_add_mod x k, ← Nat.div_add_mod y k, hxy, (h x hx).1, (h y hy).1]
  have hmap : (l.map (· / k)).Nodup := hl.map_on hinj
  have hsub : (l.map (· / k)).toFinset ⊆ Finset.range m := by
    intro q hq
    obtain ⟨x, hx, rfl⟩ := mem_map.mp (mem_toFinset.mp hq)
    exact Finset.mem_range.mpr (Nat.div_lt_of_lt_mul (h x hx).2)
  calc l.length = (l.map (· / k)).toFinset.card := by
        rw [toFinset_card_of_nodup hmap, length_map]
    _ ≤ m := (Finset.card_le_card hsub).trans (Finset.card_range m).le

end Wm8850.Lib
