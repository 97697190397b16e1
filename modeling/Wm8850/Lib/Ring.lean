import Mathlib.Data.List.Basic
import Mathlib.Data.Nat.ModEq

/-! # Lists in a ring of cells

The place `i` behind `o` is `(o + i) % size`. `RingHolds`: a list stands in the ring from a place
on. `RingWrites` is a write of a list with the rest as it was, `RingTouches` one of which only the
extent is known. A write is done by one or two copies to an address (`store`,
`ringWrites_split`). -/

namespace Wm8850.Lib

open List Nat

section
variable {α : Type} {buf buf' buf1 buf2 : Nat → α} {size o w n m : Nat} {xs ys : List α}
  {i k dst p : Nat}

def RingHolds (buf : Nat → α) (size o : Nat) (xs : List α) : Prop :=
  ∀ i x, xs[i]? = some x → buf ((o + i) % size) = x

/-- Only the `n` cells from `o` on are other ones. -/
def RingTouches (buf : Nat → α) (size o n : Nat) (buf' : Nat → α) : Prop :=
  ∀ i, n ≤ i → i < size → buf' ((o + i) % size) = buf ((o + i) % size)

structure RingWrites (buf : Nat → α) (size o : Nat) (xs : List α) (buf' : Nat → α) : Prop where
  holds : RingHolds buf' size o xs
  touches : RingTouches buf size o xs.length buf'

def store (buf : Nat → α) (dst : Nat) (xs : List α) : Nat → α := fun p =>
  if dst ≤ p then (xs[p - dst]?).getD (buf p) else buf p

lemma ring_index (ho : o < size) (hi : i < size) :
    (o + i) % size = if o + i < size then o + i else o + i - size := by
  split
  · next h => exact mod_eq_of_lt h
  · next h =>
    rw [mod_eq_sub_mod (by omega)]
    exact mod_eq_of_lt (by omega)

lemma ring_shift (i j : Nat) : ((o + i) % size + j) % size = (o + (i + j)) % size := by
  rw [mod_add_mod, add_assoc]

lemma ring_ne {n : Nat} (hkn : k < n) (hn : n < k + size) : k % size ≠ n % size := by
  intro heq
  have hzero := sub_mod_eq_zero_of_mod_eq heq.symm
  rw [mod_eq_of_lt (by omega)] at hzero
  omega

lemma ring_pred (hsize : 0 < size) (k : Nat) :
    k % size = if 0 < (k + 1) % size then (k + 1) % size - 1 else size - 1 := by
  have hlt := mod_lt k hsize
  rw [← mod_add_mod]
  generalize k % size = r at hlt
  by_cases hr : r + 1 = size
  · rw [hr, mod_self, if_neg (lt_irrefl 0)]
    omega
  · rw [mod_eq_of_lt (by omega), if_pos (by omega)]
    omega

/-! ### Lists in the ring -/

lemma RingHolds.nil : RingHolds buf size o [] := by
  intro i x hx
  cases hx

lemma ringHolds_append : RingHolds buf size o (xs ++ ys) ↔
    RingHolds buf size o xs ∧ RingHolds buf size ((o + xs.length) % size) ys := by
  constructor
  · intro h
    constructor
    · intro i x hx
      obtain ⟨hi, -⟩ := List.getElem?_eq_some_iff.mp hx
      exact h i x (by rw [List.getElem?_append_left hi, hx])
    · intro i x hx
      rw [ring_shift]
      exact h _ x (by rw [getElem?_append_right (by omega), Nat.add_sub_cancel_left, hx])
  rintro ⟨hxs, hys⟩ i x hx
  by_cases hi : i < xs.length
  · rw [getElem?_append_left hi] at hx
    exact hxs i x hx
  · rw [getElem?_append_right (by omega)] at hx
    have hy := hys _ x hx
    rwa [ring_shift, Nat.add_sub_cancel' (by omega)] at hy

/-! ### Writes -/

lemma RingTouches.refl : RingTouches buf size o n buf := fun _ _ _ => rfl

lemma RingTouches.mono (h : RingTouches buf size o n buf') (hnm : n ≤ m) :
    RingTouches buf size o m buf' := fun i hi => h i (by omega)

lemma RingTouches.trans (h1 : RingTouches buf size o n buf1) (h2 : RingTouches buf1 size o n buf2) :
    RingTouches buf size o n buf2 := fun i hi hs => (h2 i hi hs).trans (h1 i hi hs)

lemma RingTouches.shift (h : RingTouches buf size ((o + n) % size) m buf') :
    RingTouches buf size o (n + m) buf' := by
  intro i hi hs
  have hcell := h (i - n) (by omega) (by omega)
  rwa [ring_shift, Nat.add_sub_cancel' (by omega)] at hcell

lemma RingTouches.holds (h : RingTouches buf size w n buf') (hxs : RingHolds buf size o xs)
    (hw : (o + xs.length) % size = w) (hroom : xs.length + n ≤ size) :
    RingHolds buf' size o xs := by
  intro i x hx
  obtain ⟨hi, -⟩ := List.getElem?_eq_some_iff.mp hx
  have hcell := h (size - xs.length + i) (by omega) (by omega)
  rw [← hw, ring_shift, show xs.length + (size - xs.length + i) = i + size by omega,
    ← add_assoc, add_mod_right] at hcell
  rw [hcell]
  exact hxs i x hx

lemma RingTouches.behind {a : Nat} (h : RingTouches buf size (a % size) n buf') (hka : k < a)
    (hroom : a - k + n ≤ size) : buf' (k % size) = buf (k % size) := by
  have hcell := h (size - (a - k)) (by omega) (by omega)
  rwa [mod_add_mod, show a + (size - (a - k)) = k + size by omega, add_mod_right] at hcell

lemma RingWrites.append (h1 : RingWrites buf size o xs buf1)
    (h2 : RingWrites buf1 size ((o + xs.length) % size) ys buf2)
    (hsize : xs.length + ys.length ≤ size) : RingWrites buf size o (xs ++ ys) buf2 := by
  constructor
  · exact ringHolds_append.mpr ⟨h2.touches.holds h1.holds rfl hsize, h2.holds⟩
  · rw [length_append]
    exact (h1.touches.mono (by omega)).trans h2.touches.shift

/-- A queue of at most `size` elements stands in the ring. What is written behind it joins it and
pushes the oldest elements out. -/
theorem RingHolds.push (h : RingHolds buf size o xs) (hwrite : RingWrites buf size w ys buf')
    (hw : (o + xs.length) % size = w) (hys : ys.length ≤ size) :
    RingHolds buf' size ((o + (xs.length + ys.length - size)) % size)
      ((xs ++ ys).drop (xs.length + ys.length - size)) := by
  generalize hd : xs.length + ys.length - size = d
  have hdrop := h
  rw [← take_append_drop d xs, ringHolds_append, length_take, min_eq_left (by omega)] at hdrop
  rw [drop_append_of_le_length (by omega), ringHolds_append, length_drop, ring_shift,
    Nat.add_sub_cancel' (by omega), hw]
  refine ⟨hwrite.touches.holds hdrop.2 ?_ ?_, hwrite.holds⟩
  · rw [length_drop, ring_shift, Nat.add_sub_cancel' (by omega), hw]
  · rw [length_drop]
    omega

lemma RingWrites.nil : RingWrites buf size o [] buf := ⟨RingHolds.nil, RingTouches.refl⟩

/-! ### Copies -/

lemma store_of_lt (h : p < dst) : store buf dst xs p = buf p := if_neg (by omega)

lemma store_of_le (h : dst + xs.length ≤ p) : store buf dst xs p = buf p := by
  unfold store
  rw [if_pos (by omega), getElem?_eq_none (by omega)]
  rfl

section
variable (buf)

lemma store_of_getElem? (dst : Nat) {x : α} (h : xs[i]? = some x) :
    store buf dst xs (dst + i) = x := by
  unfold store
  rw [if_pos (by omega), Nat.add_sub_cancel_left, h]
  rfl

lemma store_nil (dst : Nat) : store buf dst [] = buf := by
  funext p
  by_cases hp : p < dst
  · exact store_of_lt hp
  · exact store_of_le (by simpa using hp)

lemma ringTouches_split (ho : o < size) (hys : xs.length = size - o ∨ ys = [])
    (hlen : ys.length ≤ o) :
    RingTouches buf size o (xs.length + ys.length) (store (store buf o xs) 0 ys) := by
  intro i hi hs
  rw [ring_index ho hs]
  split
  · next hlt =>
    rw [store_of_le (by omega)]
    by_cases hix : o + xs.length ≤ o + i
    · rw [store_of_le hix]
    · omega
  · next hge =>
    rcases hys with hys | rfl
    · rw [store_of_le (by omega), store_of_lt (by omega)]
    · rw [store_of_le (by simp), store_of_lt (by omega)]

lemma ringWrites_split (ho : o < size) (hlen : xs.length ≤ size) :
    RingWrites buf size o xs (store (store buf o (xs.take (size - o))) 0 (xs.drop (size - o))) := by
  constructor
  · intro i x hx
    obtain ⟨hi, -⟩ := List.getElem?_eq_some_iff.mp hx
    rw [ring_index ho (by omega)]
    split
    · next hlt =>
      rw [store_of_le (by simp only [length_drop]; omega)]
      exact store_of_getElem? buf o (by rw [getElem?_take_of_lt (by omega), hx])
    next hge =>
    have hdrop : (xs.drop (size - o))[o + i - size]? = some x := by
      rw [getElem?_drop, show size - o + (o + i - size) = i by omega, hx]
    have hstore := store_of_getElem? (store buf o (xs.take (size - o))) 0 hdrop
    rwa [zero_add] at hstore
  have hfull : (xs.take (size - o)).length = size - o ∨ xs.drop (size - o) = [] := by
    by_cases h : size - o ≤ xs.length
    · exact .inl (by simp only [length_take]; omega)
    · exact .inr (drop_eq_nil_of_le (by omega))
  have htouch := ringTouches_split buf ho hfull (by simp only [length_drop]; omega)
  rwa [← length_append, take_append_drop] at htouch

lemma ringWrites_store (hfit : o + xs.length ≤ size) :
    RingWrites buf size o xs (store buf o xs) := by
  by_cases ho : o < size
  · have hsplit := ringWrites_split buf ho (show xs.length ≤ size by omega)
    rwa [take_of_length_le (by omega), drop_eq_nil_of_le (by omega)] at hsplit
  · rw [eq_nil_of_length_eq_zero (show xs.length = 0 by omega), store_nil]
    exact RingWrites.nil

end

end

end Wm8850.Lib
