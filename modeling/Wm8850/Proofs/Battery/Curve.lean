import Mathlib.Order.Monotone.Basic
import Wm8850.Battery.Curve

/-! # The capacity follows the discharge curve

An ADC value inside the curve lies in one segment, and the loop assigns the capacity of that segment
(`adc2cap_between`). It is between the capacities of the two points as long as the product by ten
fits an `int` (`between_eq`). -/

namespace Wm8850.Battery

open Lib List

/-- The points of the curve do not fall. -/
def Curve (vp : Nat → Int) : Prop := ∀ i < 10, vp i ≤ vp (i + 1)

/-- No product that the loop computes leaves the range of `int`. -/
def Narrow (vp : Nat → Int) : Prop := ∀ i < 10, 10 * (min (vp (i + 1)) (vp 10 - 1) - vp i) < 2 ^ 31

/-- `Narrow` for a curve that may fall: no segment that the loop divides by leaves the range
either. -/
def Fits (vp : Nat → Int) : Prop := Narrow vp ∧ ∀ i < 10, vp (i + 1) - vp i < 2 ^ 31

/-- What `adc2cap` is for: a capacity for every ADC value, along the curve. -/
structure Interpolates (vp : Nat → Int) : Prop where
  assigned : ∀ adc, ∃ c, adc2cap vp adc = some c ∧ 0 ≤ c ∧ c ≤ 100
  mono : ∀ adc adc' c c', adc ≤ adc' → adc2cap vp adc = some c → adc2cap vp adc' = some c' → c ≤ c'
  points : (∀ i < 10, vp i < vp (i + 1)) → ∀ i ≤ 10, adc2cap vp (vp i) = some (10 * i)

section
variable {vp : Nat → Int} {adc adc' : Int} {i j : Nat}

lemma Curve.le (hv : Curve vp) (hij : i ≤ j) (hj : j ≤ 10) : vp i ≤ vp j := by
  induction j, hij using Nat.le_induction with
  | base => exact le_refl _
  | succ j hij ih => exact (ih (by omega)).trans (hv j (by omega))

/-- An ADC value above the first point and not above the point `n` lies in a segment before `n`. -/
lemma exists_segment {n : Nat} (h0 : vp 0 < adc) (hn : adc ≤ vp n) :
    ∃ i < n, vp i < adc ∧ adc ≤ vp (i + 1) := by
  induction n with
  | zero => omega
  | succ n ih =>
    by_cases hlt : vp n < adc
    · exact ⟨n, by omega, hlt, hn⟩
    · obtain ⟨i, hi, hseg⟩ := ih (by omega)
      exact ⟨i, by omega, hseg⟩

/-- A loop that assigns under a condition which one element meets assigns the value of that
element. -/
lemma foldl_unique {f : Nat → Int} {p : Nat → Prop} [DecidablePred p] (l : List Nat)
    (c : Option Int) (hp : ∀ j ∈ l, p j ↔ j = i) :
    l.foldl (fun c j => if p j then some (f j) else c) c = if i ∈ l then some (f i) else c := by
  induction l generalizing c with
  | nil => simp
  | cons j l ih =>
    rw [foldl_cons, ih _ fun k hk => hp k (mem_cons_of_mem _ hk)]
    by_cases hji : j = i
    · subst hji
      simp [(hp j mem_cons_self).mpr rfl]
    · simp [hp j mem_cons_self, hji, Ne.symm hji]

/-- A loop that assigns under a condition which some element meets assigns the value of such an
element. -/
lemma foldl_assigns {f : Nat → Int} {p : Nat → Prop} [DecidablePred p] (l : List Nat)
    (c : Option Int) (hp : (∃ j ∈ l, p j) ∨ ∃ j, p j ∧ c = some (f j)) :
    ∃ j, p j ∧ l.foldl (fun c j => if p j then some (f j) else c) c = some (f j) := by
  induction l generalizing c with
  | nil => simpa using hp
  | cons j l ih =>
    rw [foldl_cons]
    by_cases hj : p j
    · exact ih _ (.inr ⟨j, hj, if_pos hj⟩)
    · rw [if_neg hj]
      refine ih c (hp.imp_left ?_)
      rintro ⟨k, hk, hpk⟩
      rcases mem_cons.mp hk with rfl | hk
      · exact absurd hpk hj
      · exact ⟨k, hk, hpk⟩

/-- The segments do not overlap, so the loop assigns once. -/
theorem adc2cap_between (hv : Curve vp) (hi : i < 10) (hlo : vp i < adc) (hhi : adc ≤ vp (i + 1))
    (htop : adc < vp 10) : adc2cap vp adc = some (between vp adc i) := by
  have h0 := hv.le (Nat.zero_le i) (by omega)
  have honly : ∀ j ∈ [9, 8, 7, 6, 5, 4, 3, 2, 1, 0], (adc ≤ vp (j + 1) ∧ vp j < adc) ↔ j = i := by
    intro j hj
    have hj10 : j < 10 := by
      simp only [mem_cons, not_mem_nil, or_false] at hj
      omega
    constructor
    · rintro ⟨hle, hlt⟩
      rcases lt_trichotomy j i with hji | hji | hji
      · have := hv.le (show j + 1 ≤ i from hji) (by omega)
        omega
      · exact hji
      · have := hv.le (show i + 1 ≤ j from hji) (by omega)
        omega
    · rintro rfl
      exact ⟨hhi, hlo⟩
  have hmem : i ∈ [9, 8, 7, 6, 5, 4, 3, 2, 1, 0] := by
    simp only [mem_cons]
    omega
  rw [adc2cap, if_neg (by omega), if_neg (by omega), foldl_unique _ _ honly, if_pos hmem]

/-! ### Segments that are narrow enough -/

lemma between_eq (hlo : vp i < adc) (hhi : adc ≤ vp (i + 1)) (hint : vp (i + 1) - vp i < 2 ^ 31)
    (hfit : (adc - vp i) * 10 < 2 ^ 31) (hi : i < 10) :
    between vp adc i = (adc - vp i) * 10 / (vp (i + 1) - vp i) + i * 10 ∧
      10 * (i : Int) ≤ between vp adc i ∧ between vp adc i ≤ 10 * (i + 1) := by
  have hpos : 0 < vp (i + 1) - vp i := by omega
  have hq : 0 ≤ (adc - vp i) * 10 / (vp (i + 1) - vp i) := Int.ediv_nonneg (by omega) (by omega)
  have hq' : (adc - vp i) * 10 / (vp (i + 1) - vp i) ≤ 10 := Int.ediv_le_of_le_mul hpos (by omega)
  have heq : between vp adc i = (adc - vp i) * 10 / (vp (i + 1) - vp i) + i * 10 := by
    rw [between, wrapInt_of_mem (by omega) hfit, wrapInt_of_mem (by omega) hint,
      Int.tdiv_eq_ediv_of_nonneg (by omega), wrapInt_of_mem (by omega) (by omega)]
  omega

/-- A curve that falls somewhere can have several segments around an ADC value; each gives a
capacity that is not negative. -/
theorem adc2cap_nonneg (hf : Fits vp) (adc : Int) : ∃ c, adc2cap vp adc = some c ∧ 0 ≤ c := by
  unfold adc2cap
  split
  · exact ⟨100, rfl, by decide⟩
  next htop =>
  split
  · exact ⟨0, rfl, le_refl 0⟩
  next hbot =>
  obtain ⟨i, hi, hlo, hhi⟩ := exists_segment (show vp 0 < adc by omega) (show adc ≤ vp 10 by omega)
  have hmem : ∀ j, j ∈ [9, 8, 7, 6, 5, 4, 3, 2, 1, 0] ↔ j < 10 := by
    intro j
    simp only [mem_cons, not_mem_nil, or_false]
    omega
  have hin : ∃ j ∈ [9, 8, 7, 6, 5, 4, 3, 2, 1, 0], j < 10 ∧ adc ≤ vp (j + 1) ∧ vp j < adc :=
    ⟨i, (hmem i).mpr hi, hi, hhi, hlo⟩
  obtain ⟨j, ⟨hj, hle, hlt⟩, hrun⟩ := foldl_assigns (f := between vp adc) _ none (.inl hin)
  refine ⟨between vp adc j, ?_, ?_⟩
  · rw [← hrun]
    refine foldl_ext _ _ _ fun c k hk => ?_
    simp only [(hmem k).mp hk, true_and]
  · have hprod := hf.1 j hj
    have := (between_eq hlt hle (hf.2 j hj) (by omega) hj).2.1
    omega

section
variable (hv : Curve vp) (hn : Narrow vp)
include hv hn

lemma adc2cap_segment (hbot : vp 0 < adc) (htop : adc < vp 10) :
    ∃ i < 10, vp i < adc ∧ adc ≤ vp (i + 1) ∧ adc2cap vp adc = some (between vp adc i) ∧
      between vp adc i = (adc - vp i) * 10 / (vp (i + 1) - vp i) + i * 10 ∧
      10 * (i : Int) ≤ between vp adc i ∧ between vp adc i ≤ 10 * (i + 1) := by
  obtain ⟨i, hi, hlo, hhi⟩ := exists_segment hbot htop.le
  have hfit := hn i hi
  have hlast := hv.le (show i + 1 ≤ 10 from hi) (le_refl 10)
  exact ⟨i, hi, hlo, hhi, adc2cap_between hv hi hlo hhi htop,
    between_eq hlo hhi (by omega) (by omega) hi⟩

lemma adc2cap_range (adc : Int) : ∃ c, adc2cap vp adc = some c ∧ 0 ≤ c ∧ c ≤ 100 := by
  by_cases htop : vp 10 ≤ adc
  · exact ⟨100, by rw [adc2cap, if_pos htop], by decide⟩
  by_cases hbot : adc ≤ vp 0
  · exact ⟨0, by rw [adc2cap, if_neg htop, if_pos hbot], by decide⟩
  · obtain ⟨i, hi, -, -, hrun, -, hlow, hhigh⟩ := adc2cap_segment hv hn (show vp 0 < adc by omega)
      (by omega)
    exact ⟨_, hrun, by omega, by omega⟩

lemma adc2cap_mono (hle : adc ≤ adc') {c c' : Int}
    (hc : adc2cap vp adc = some c) (hc' : adc2cap vp adc' = some c') : c ≤ c' := by
  obtain ⟨x, hx, hnonneg, hle100⟩ := adc2cap_range hv hn adc
  obtain ⟨x', hx', hnonneg', -⟩ := adc2cap_range hv hn adc'
  cases hc.symm.trans hx
  cases hc'.symm.trans hx'
  by_cases htop : vp 10 ≤ adc'
  · rw [adc2cap, if_pos htop] at hc'
    cases hc'
    exact hle100
  by_cases hbot : adc ≤ vp 0
  · rw [adc2cap, if_neg (by omega), if_pos hbot] at hc
    cases hc
    exact hnonneg'
  obtain ⟨i, hi, hlo, hhi, hrun, heq, hlow, hhigh⟩ :=
    adc2cap_segment hv hn (show vp 0 < adc by omega) (by omega)
  obtain ⟨j, hj, hlo', hhi', hrun', heq', hlow', hhigh'⟩ :=
    adc2cap_segment hv hn (show vp 0 < adc' by omega) (by omega)
  cases hc.symm.trans hrun
  cases hc'.symm.trans hrun'
  rcases lt_trichotomy i j with hij | rfl | hij
  · omega
  · have := Int.ediv_le_ediv (show 0 < vp (i + 1) - vp i by omega)
      (show (adc - vp i) * 10 ≤ (adc' - vp i) * 10 by omega)
    omega
  · have := hv.le (show j + 1 ≤ i from hij) (by omega)
    omega

lemma adc2cap_point (hlt : ∀ i < 10, vp i < vp (i + 1)) (hi : i ≤ 10) :
    adc2cap vp (vp i) = some (10 * i) := by
  cases i with
  | zero =>
    have := hlt 0 (by decide)
    have := hv.le (show 0 + 1 ≤ 10 by decide) (le_refl 10)
    rw [adc2cap, if_neg (by omega), if_pos (le_refl _)]
    rfl
  | succ i =>
    by_cases hlast : i + 1 = 10
    · rw [hlast, adc2cap, if_pos (le_refl _)]
      rfl
    have hstep := hlt i (by omega)
    have hnext := hlt (i + 1) (by omega)
    have hfit := hn i (by omega)
    have htop := hv.le (show i + 1 + 1 ≤ 10 by omega) (le_refl 10)
    rw [adc2cap_between hv (by omega) hstep (le_refl _) (by omega),
      (between_eq hstep (le_refl _) (by omega) (by omega) (by omega)).1,
      Int.mul_ediv_cancel_left 10 (by omega)]
    congr 1
    omega

end

/-- For every non-decreasing curve without an overflow, `adc2cap` assigns a capacity in 0..100 that
follows the ADC value, and the point `i` of an increasing curve has the capacity `10 * i`. -/
theorem interpolates_of_narrow (hv : Curve vp) (hn : Narrow vp) : Interpolates vp :=
  ⟨adc2cap_range hv hn, fun _ _ _ _ hle hc hc' => adc2cap_mono hv hn hle hc hc',
    fun hlt _ hi => adc2cap_point hv hn hlt hi⟩

end

/-- The default curve, from `0xcb0` to `0xeb3`. -/
def defaultVp (i : Nat) : Int :=
  [0xcb0, 0xceb, 0xd30, 0xd6c, 0xda0, 0xdc7, 0xdf0, 0xe1c, 0xe47, 0xe71, 0xeb3].getD i 0

theorem defaultVp_interpolates : Interpolates defaultVp :=
  interpolates_of_narrow (by unfold Curve; decide) (by unfold Narrow; decide)

/-- A curve whose first segment is so wide that the product by ten overflows inside it. -/
def wideVp (i : Nat) : Int := if i = 0 then -380000000 else 3200 + 50 * i

/-- At the ADC value 0 the capacity is `-1`, below the 0 of every value under the curve. -/
theorem wideVp_falls : Curve wideVp ∧ adc2cap wideVp 0 = some (-1) ∧ ¬ Interpolates wideVp := by
  have hneg : adc2cap wideVp 0 = some (-1) := by decide
  refine ⟨by unfold Curve; decide, hneg, fun h => ?_⟩
  obtain ⟨c, hc, hpos, -⟩ := h.assigned 0
  cases hneg.symm.trans hc
  omega

end Wm8850.Battery
