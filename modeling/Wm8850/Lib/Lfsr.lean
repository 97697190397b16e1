import Mathlib.Algebra.Polynomial.Div
import Mathlib.Algebra.Field.ZMod

/-! # A shift register divides polynomials

For each bit of a message a register moves up by one place, and the bit at place `w`, added to the
bit of the message, is fed back where `g` has a coefficient. The places up to `w` then hold the
remainder of the message, times `X ^ (w + 1)`, modulo `X ^ (w + 1) + g` (`bitPoly_lfsrRun`). What
moves on behind the place `w` is never fed back. -/

namespace Wm8850.Lib

open Polynomial List

def lfsrStep (w : Nat) (g r : Nat → Bool) (d : Bool) : Nat → Bool
  | 0 => (d ^^ r w) && g 0
  | k + 1 => r k ^^ ((d ^^ r w) && g (k + 1))

def lfsrRun (w : Nat) (g r : Nat → Bool) (ds : List Bool) : Nat → Bool := ds.foldl (lfsrStep w g) r

variable {w k : Nat} {g g' r r' : Nat → Bool}

lemma lfsrRun_concat (w : Nat) (g r : Nat → Bool) (ds : List Bool) (d : Bool) :
    lfsrRun w g r (ds ++ [d]) = lfsrStep w g (lfsrRun w g r ds) d := by
  rw [lfsrRun, foldl_append]
  rfl

lemma lfsrStep_congr (hg : ∀ k ≤ w, g k = g' k) (hr : ∀ k ≤ w, r k = r' k) (d : Bool) (hk : k ≤ w) :
    lfsrStep w g r d k = lfsrStep w g' r' d k := by
  cases k with
  | zero => rw [lfsrStep, lfsrStep, hr w (le_refl w), hg 0 hk]
  | succ k => rw [lfsrStep, lfsrStep, hr w (le_refl w), hg (k + 1) hk, hr k (by omega)]

lemma lfsrRun_congr (hg : ∀ k ≤ w, g k = g' k) (hr : ∀ k ≤ w, r k = r' k) (ds : List Bool)
    (hk : k ≤ w) :
    lfsrRun w g r ds k = lfsrRun w g' r' ds k := by
  induction ds generalizing r r' with
  | nil => exact hr k hk
  | cons d ds ih => exact ih fun j hj => lfsrStep_congr hg hr d hj

lemma lfsrRun_impulse (w n : Nat) (g : Nat → Bool) :
    lfsrRun w g (fun _ => false) (replicate n false ++ [true]) = g := by
  have hzero : lfsrStep w g (fun _ => false) false = fun _ => false := by
    funext k
    cases k <;> rfl
  have hzeros : lfsrRun w g (fun _ => false) (replicate n false) = fun _ => false := by
    induction n with
    | zero => rfl
    | succ n ih =>
      rw [replicate_succ, lfsrRun, foldl_cons, hzero]
      exact ih
  rw [lfsrRun_concat, hzeros]
  funext k
  cases k <;> simp [lfsrStep]

/-! ### Polynomials -/

def bitCoeff (b : Bool) : ZMod 2 := if b then 1 else 0

lemma bitCoeff_xor (a b : Bool) : bitCoeff (a ^^ b) = bitCoeff a + bitCoeff b := by
  cases a <;> cases b <;> decide

lemma bitCoeff_and (a b : Bool) : bitCoeff (a && b) = bitCoeff a * bitCoeff b := by
  cases a <;> cases b <;> decide

lemma bitCoeff_inj {a b : Bool} (h : bitCoeff a = bitCoeff b) : a = b := by
  revert h
  cases a <;> cases b <;> decide

noncomputable def bitPoly (n : Nat) (r : Nat → Bool) : (ZMod 2)[X] :=
  ∑ i ∈ Finset.range n, C (bitCoeff (r i)) * X ^ i

noncomputable def generatorPoly (w : Nat) (g : Nat → Bool) : (ZMod 2)[X] :=
  X ^ (w + 1) + bitPoly (w + 1) g

noncomputable def messagePoly (ds : List Bool) : (ZMod 2)[X] :=
  ds.foldl (fun p d => X * p + C (bitCoeff d)) 0

lemma coeff_bitPoly (n : Nat) (r : Nat → Bool) (k : Nat) :
    (bitPoly n r).coeff k = if k < n then bitCoeff (r k) else 0 := by
  rw [bitPoly]
  simp

lemma degree_bitPoly_lt (n : Nat) (r : Nat → Bool) : (bitPoly n r).degree < n := by
  rw [degree_lt_iff_coeff_zero]
  intro k hk
  rw [coeff_bitPoly, if_neg (Nat.not_lt_of_le hk)]

lemma monic_generatorPoly (w : Nat) (g : Nat → Bool) : (generatorPoly w g).Monic :=
  monic_X_pow_add (degree_bitPoly_lt (w + 1) g)

lemma degree_generatorPoly (w : Nat) (g : Nat → Bool) :
    (generatorPoly w g).degree = (w + 1 : Nat) := by
  rw [generatorPoly, degree_add_eq_left_of_degree_lt, degree_X_pow]
  rw [degree_X_pow]
  exact degree_bitPoly_lt (w + 1) g

/-- A step multiplies by `X`, adds the bit at the power behind the register, and takes away the
generator if that power is left over. -/
theorem bitPoly_lfsrStep (w : Nat) (g r : Nat → Bool) (d : Bool) :
    X * bitPoly (w + 1) r + C (bitCoeff d) * X ^ (w + 1)
      = bitPoly (w + 1) (lfsrStep w g r d) + generatorPoly w g * C (bitCoeff (d ^^ r w)) := by
  ext k
  have htwo : ∀ x : ZMod 2, x + x = 0 := CharTwo.add_self_eq_zero
  rw [coeff_add, coeff_add, coeff_mul_C, generatorPoly, coeff_add, coeff_C_mul_X_pow, coeff_X_pow,
    coeff_bitPoly, coeff_bitPoly]
  cases k with
  | zero =>
    rw [coeff_X_mul_zero, lfsrStep, bitCoeff_and]
    simp only [Nat.zero_lt_succ, if_true, Nat.zero_ne_add_one, if_false, zero_add]
    rw [mul_comm (bitCoeff (g 0)), htwo]
  | succ k =>
    rw [coeff_X_mul, coeff_bitPoly, lfsrStep, bitCoeff_xor, bitCoeff_and]
    rcases lt_trichotomy k w with hlt | heq | hgt
    · simp only [Nat.succ_lt_succ_iff, hlt, Nat.lt_succ_of_lt hlt, if_true, Nat.succ_inj,
        ne_of_lt hlt, if_false, zero_add]
      rw [mul_comm (bitCoeff (g (k + 1))), add_assoc, htwo, add_zero]
    · rw [heq]
      simp only [lt_irrefl, Nat.lt_succ_self, if_true, if_false, zero_add, add_zero, one_mul]
      rw [bitCoeff_xor, add_comm]
    · have h1 : ¬ k < w + 1 := by omega
      have h2 : ¬ k + 1 < w + 1 := by omega
      have h3 : ¬ k + 1 = w + 1 := by omega
      simp only [h1, h2, h3, if_false, zero_add, zero_mul]

/-- An empty register that has read the message holds the remainder. -/
theorem bitPoly_lfsrRun (w : Nat) (g : Nat → Bool) (ds : List Bool) :
    bitPoly (w + 1) (lfsrRun w g (fun _ => false) ds) = (messagePoly ds * X ^ (w + 1)) %ₘ
      generatorPoly w g := by
  -- the quotient grows with the message, and it is enough that there is one
  have hquot : ∃ q, bitPoly (w + 1) (lfsrRun w g (fun _ => false) ds) + generatorPoly w g * q
      = messagePoly ds * X ^ (w + 1) := by
    induction ds using reverseRecOn with
    | nil =>
      refine ⟨0, ?_⟩
      simp [lfsrRun, messagePoly, bitPoly, bitCoeff]
    | append_singleton ds d ih =>
      obtain ⟨q, hq⟩ := ih
      have hstep := bitPoly_lfsrStep w g (lfsrRun w g (fun _ => false) ds) d
      refine ⟨C (bitCoeff (d ^^ lfsrRun w g (fun _ => false) ds w)) + X * q, ?_⟩
      have hmsg : messagePoly (ds ++ [d]) = X * messagePoly ds + C (bitCoeff d) := by
        rw [messagePoly, foldl_append]
        rfl
      calc bitPoly (w + 1) (lfsrRun w g (fun _ => false) (ds ++ [d]))
            + generatorPoly w g * (C (bitCoeff (d ^^ lfsrRun w g (fun _ => false) ds w)) + X * q)
          = X * (bitPoly (w + 1) (lfsrRun w g (fun _ => false) ds) + generatorPoly w g * q)
            + C (bitCoeff d) * X ^ (w + 1) := by
            rw [lfsrRun_concat, mul_add, ← add_assoc, ← hstep]
            ring
        _ = messagePoly (ds ++ [d]) * X ^ (w + 1) := by
            rw [hq, hmsg]
            ring
  obtain ⟨q, hq⟩ := hquot
  have hdegree : (bitPoly (w + 1) (lfsrRun w g (fun _ => false) ds)).degree <
      (generatorPoly w g).degree := by
    rw [degree_generatorPoly]
    exact degree_bitPoly_lt (w + 1) _
  exact ((div_modByMonic_unique q _ (monic_generatorPoly w g) ⟨hq, hdegree⟩).2).symm

lemma coeff_remainder (w : Nat) (g : Nat → Bool) (ds : List Bool) (hk : k ≤ w) :
    ((messagePoly ds * X ^ (w + 1)) %ₘ generatorPoly w g).coeff k
      = bitCoeff (lfsrRun w g (fun _ => false) ds k) := by
  rw [← bitPoly_lfsrRun, coeff_bitPoly, if_pos (Nat.lt_succ_of_le hk)]

end Wm8850.Lib
