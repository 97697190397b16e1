import Wm8850.Pcm.Process

/-! # One sample in 16 bits

`wmt_pcm_fmt_trans` takes the mantissa of a float apart with one shift. The result is the number
that the float stands for, truncated and clamped to 16 bits, if the distance to 0 is less than 1; a
larger float is right only by chance (`floatData_iff`). -/

namespace Wm8850.Pcm

open Lib List Nat

/-! ### Bytes -/

lemma wordBytes_dup (x : BitVec 16) :
    wordBytes (x.setWidth 32 <<< 16 ||| x.setWidth 32) = halfBytes x ++ halfBytes x := by
  unfold wordBytes
  congr 2
  · simp
  · ext i hi
    simp [show 16 + i < 32 by omega, BitVec.getLsbD_eq_getElem hi]

lemma halfBytes_half (m : Mem) (p : Nat) : halfBytes (half m p) = [m p, m (p + 1)] := by
  unfold halfBytes half
  congr 2
  · simp
  · ext i hi
    simp [hi, show 8 + i < 16 by omega]

lemma shiftLeft_pair (x : BitVec 8) : x.setWidth 32 <<< 24 ||| x.setWidth 32 <<< 8 =
    (x.setWidth 16 <<< 8).setWidth 32 <<< 16 ||| (x.setWidth 16 <<< 8).setWidth 32 := by
  revert x
  decide +kernel

lemma signed_eq (x : BitVec 8) :
    (x ^^^ 0x80#8).setWidth 16 <<< 8 = BitVec.ofInt 16 (256 * (x.toNat - 128)) := by
  revert x
  decide +kernel

/-! ### Floats -/

lemma scale_eq (a : Nat) {e : Nat} (h : e ≤ 126) :
    a / 2 ^ (135 - e) = a * 2 ^ e * 2 ^ 15 / 2 ^ 150 := by
  have hpow : 2 ^ 150 = 2 ^ (135 - e) * (2 ^ e * 2 ^ 15) := by
    rw [← Nat.pow_add, ← Nat.pow_add, show 135 - e + (e + 15) = 150 by omega]
  rw [hpow, Nat.mul_assoc, Nat.mul_div_mul_right _ _ (Nat.mul_pos (Nat.two_pow_pos e) (by decide))]

lemma toS16_mono {v w : Int} (h : v ≤ w) : toS16 v ≤ toS16 w := by
  have hdiv : (v * 2 ^ 15).tdiv (2 ^ 150) ≤ (w * 2 ^ 15).tdiv (2 ^ 150) :=
    Int.tdiv_le_tdiv (by decide) (by omega)
  unfold toS16
  omega

/-- The mantissa with its leading 1. -/
def mantissa (f : BitVec 32) : Nat := 2 ^ 23 + (f.setWidth 23).toNat

/-- The distance to 0 is less than 1, or the 16 bits of the mantissa that are kept are the greatest
distance that a sample of this sign can have. -/
def FloatFits (f : BitVec 32) : Prop :=
  floatExp f ≤ 126 ∨ floatExp f ≤ 135 ∧
    mantissa f / 2 ^ (135 - floatExp f) % 2 ^ 16 = if f.msb then 2 ^ 15 else 2 ^ 15 - 1

/-- The 16 bits that the shift leaves, with the sign. -/
lemma floatData_toNat {f : BitVec 32} {x : Nat}
    (hx : (((f.setWidth 23).setWidth 32 + 0x800000#32) >>> ((135 + 256 - floatExp f) % 256)).toNat
      = x) :
    floatData f = BitVec.ofInt 16 (if f.msb then -(x : Int) else x) := by
  unfold floatData
  dsimp only
  rw [← hx]
  split
  · rw [← BitVec.neg_eq_not_add, BitVec.setWidth_neg_of_le (by decide), BitVec.ofInt_neg,
      BitVec.ofInt_natCast, BitVec.ofNat_toNat]
  · rw [BitVec.ofInt_natCast, BitVec.ofNat_toNat]

lemma shifted_toNat (f : BitVec 32) (d : Nat) :
    (((f.setWidth 23).setWidth 32 + 0x800000#32) >>> d).toNat = mantissa f / 2 ^ d := by
  have hfrac : (f.setWidth 23).toNat < 2 ^ 23 := (f.setWidth 23).isLt
  rw [BitVec.toNat_ushiftRight, shiftRight_eq_div_pow, BitVec.toNat_add,
    BitVec.toNat_setWidth_of_le (by decide), BitVec.toNat_ofNat, mod_eq_of_lt (by omega), add_comm]
  rfl

/-- The number in 16 bits, from the magnitude in units of `2 ^ -150`. -/
lemma toS16_floatUnits {f : BitVec 32} {a : Nat}
    (ha : a = if floatExp f = 0 then (f.setWidth 23).toNat * 2 else mantissa f * 2 ^ floatExp f) :
    toS16 (floatUnits f) = if f.msb then -((min (a * 2 ^ 15 / 2 ^ 150) (2 ^ 15) : Nat) : Int)
      else ((min (a * 2 ^ 15 / 2 ^ 150) (2 ^ 15 - 1) : Nat) : Int) := by
  have hunits : floatUnits f = if f.msb then -(a : Int) else a := by
    rw [floatUnits, ha]
    rfl
  have hdiv : ((a : Int) * 2 ^ 15).tdiv (2 ^ 150) = ((a * 2 ^ 15 / 2 ^ 150 : Nat) : Int) := rfl
  rw [hunits, toS16]
  split
  · rw [Int.neg_mul, Int.neg_tdiv, hdiv]
    omega
  · rw [hdiv]
    omega

lemma scaled_zero {a : Nat} (h : a < 2 ^ 24) : a * 2 ^ 15 / 2 ^ 150 = 0 :=
  Nat.div_eq_of_lt <|
    calc a * 2 ^ 15 < 2 ^ 24 * 2 ^ 15 := Nat.mul_lt_mul_of_pos_right h (by decide)
      _ ≤ 2 ^ 150 := by decide

lemma floatData_small {f : BitVec 32} (h : floatExp f ≤ 126) :
    floatData f = BitVec.ofInt 16 (toS16 (floatUnits f)) := by
  have hfrac : (f.setWidth 23).toNat < 2 ^ 23 := (f.setWidth 23).isLt
  rw [floatData_toNat (shifted_toNat f _),
    show (135 + 256 - floatExp f) % 256 = 135 - floatExp f by omega, scale_eq _ h,
    toS16_floatUnits rfl]
  by_cases hzero : floatExp f = 0
  · -- a denormal float is far below the last bit
    have hnone : mantissa f * 2 ^ floatExp f * 2 ^ 15 / 2 ^ 150 = 0 := by
      rw [hzero, pow_zero, mul_one]
      exact scaled_zero (by unfold mantissa; omega)
    rw [hnone, if_pos hzero, scaled_zero (by omega)]
    rfl
  · rw [if_neg hzero]
    have hlt : mantissa f * 2 ^ floatExp f < 2 ^ 150 :=
      calc _ < 2 ^ 24 * 2 ^ floatExp f := Nat.mul_lt_mul_of_pos_right
            (by unfold mantissa; omega) (Nat.two_pow_pos _)
        _ ≤ 2 ^ 24 * 2 ^ 126 := Nat.mul_le_mul_left _ (Nat.pow_le_pow_right (by decide) h)
    generalize mantissa f * 2 ^ floatExp f = a at hlt
    congr 1
    split <;> omega

/-- From 1 on the number is clamped. -/
lemma toS16_large {f : BitVec 32} (h : 127 ≤ floatExp f) :
    toS16 (floatUnits f) = if f.msb then -2 ^ 15 else 2 ^ 15 - 1 := by
  have hge : 2 ^ 150 ≤ mantissa f * 2 ^ floatExp f :=
    calc 2 ^ 150 = 2 ^ 23 * 2 ^ 127 := by decide
      _ ≤ mantissa f * 2 ^ floatExp f := Nat.mul_le_mul (by unfold mantissa; omega)
        (Nat.pow_le_pow_right (by decide) h)
  have hscaled : 2 ^ 15 ≤ mantissa f * 2 ^ floatExp f * 2 ^ 15 / 2 ^ 150 := by
    rw [Nat.le_div_iff_mul_le (by decide), Nat.mul_comm]
    exact Nat.mul_le_mul_right _ hge
  rw [toS16_floatUnits rfl, if_neg (show floatExp f ≠ 0 by omega)]
  generalize mantissa f * 2 ^ floatExp f * 2 ^ 15 / 2 ^ 150 = q at hscaled
  split <;> omega

lemma ofInt_eq_iff {v w : Int} :
    BitVec.ofInt 16 v = BitVec.ofInt 16 w ↔ v % 2 ^ 16 = w % 2 ^ 16 := by
  rw [← BitVec.toNat_inj, BitVec.toNat_ofInt, BitVec.toNat_ofInt]
  have hv := Int.emod_nonneg v (show ((2 ^ 16 : Nat) : Int) ≠ 0 by decide)
  have hw := Int.emod_nonneg w (show ((2 ^ 16 : Nat) : Int) ≠ 0 by decide)
  omega

/-- A float is converted to its number in 16 bits exactly if it fits. -/
theorem floatData_iff (f : BitVec 32) :
    floatData f = BitVec.ofInt 16 (toS16 (floatUnits f)) ↔ FloatFits f := by
  have hexp : floatExp f < 256 := ((f >>> 23).setWidth 8).isLt
  by_cases hsmall : floatExp f ≤ 126
  · exact iff_of_true (floatData_small hsmall) (.inl hsmall)
  rw [floatData_toNat (shifted_toNat f _), toS16_large (by omega), ofInt_eq_iff, FloatFits]
  by_cases hkept : floatExp f ≤ 135
  · rw [show (135 + 256 - floatExp f) % 256 = 135 - floatExp f by omega]
    simp only [hsmall, hkept, false_or, true_and]
    generalize mantissa f / 2 ^ (135 - floatExp f) = x
    split <;> omega
  · -- the shift takes all bits away
    have hgone : mantissa f / 2 ^ ((135 + 256 - floatExp f) % 256) = 0 := by
      have hfrac : (f.setWidth 23).toNat < 2 ^ 23 := (f.setWidth 23).isLt
      refine Nat.div_eq_of_lt (lt_of_lt_of_le (b := 2 ^ 24) ?_
        (Nat.pow_le_pow_right (by decide) (by omega)))
      unfold mantissa
      omega
    simp only [hsmall, hkept, false_or, false_and, iff_false, hgone]
    split <;> decide

/-! ### A buffer of floats -/

lemma length_flatMap_range {α : Type} {f : Nat → List α} {c : Nat} (hf : ∀ k, (f k).length = c)
    (n : Nat) : ((range n).flatMap f).length = n * c := by
  rw [length_flatMap, map_congr_left fun k _ => hf k]
  simp

/-- Blocks of one length make the same list only if they are the same. -/
lemma flatMap_range_inj {α : Type} {f g : Nat → List α} {c : Nat} (hf : ∀ k, (f k).length = c)
    (hg : ∀ k, (g k).length = c) (n : Nat) :
    (range n).flatMap f = (range n).flatMap g ↔ ∀ k < n, f k = g k := by
  induction n with
  | zero => simp
  | succ n ih =>
    rw [range_succ, flatMap_append, flatMap_append, flatMap_singleton, flatMap_singleton]
    have hlen : ((range n).flatMap f).length = ((range n).flatMap g).length := by
      rw [length_flatMap_range hf, length_flatMap_range hg]
    constructor
    · intro h k hk
      obtain ⟨hbefore, hlast⟩ := append_inj h hlen
      rw [ih] at hbefore
      rcases Nat.lt_succ_iff_lt_or_eq.mp hk with hk | rfl
      · exact hbefore k hk
      · exact hlast
    · intro hall
      rw [ih.mpr fun k hk => hall k (by omega), hall n (by omega)]

lemma halfBytes_inj {x y : BitVec 16} : halfBytes x = halfBytes y ↔ x = y := by
  refine ⟨fun h => ?_, fun h => h ▸ rfl⟩
  unfold halfBytes at h
  simp only [cons.injEq, and_true] at h
  apply BitVec.eq_of_toNat_eq
  have hlow := congrArg BitVec.toNat h.1
  have hhigh := congrArg BitVec.toNat h.2
  simp only [BitVec.toNat_setWidth, BitVec.toNat_ushiftRight, shiftRight_eq_div_pow] at hlow hhigh
  have hx := x.isLt
  have hy := y.isLt
  omega

/-- A sample on two channels: twice if there is one channel. -/
def frameBytes (channels : Nat) (x : BitVec 16) : List (BitVec 8) :=
  if channels = 1 then halfBytes x ++ halfBytes x else halfBytes x

lemma frameBytes_inj {channels : Nat} {x y : BitVec 16} :
    frameBytes channels x = frameBytes channels y ↔ x = y := by
  unfold frameBytes
  split
  · exact ⟨fun h => halfBytes_inj.mp (append_inj h rfl).1, fun h => h ▸ rfl⟩
  · exact halfBytes_inj

lemma length_frameBytes (channels : Nat) :
    ∃ c, ∀ x, (frameBytes channels x).length = c := by
  unfold frameBytes
  split
  · exact ⟨4, fun _ => rfl⟩
  · exact ⟨2, fun _ => rfl⟩

variable {m : Mem} {p n : Nat}

/-- The floats are converted to their numbers exactly if all of them fit. -/
lemma wmtPcmFmtTrans_float_iff {channels : Nat} (hch : channels = 1 ∨ channels = 2) :
    (wmtPcmFmtTrans .float channels m p (4 * n) = (range n).flatMap fun k =>
        frameBytes channels (BitVec.ofInt 16 (toS16 (floatUnits (word m (p + 4 * k)))))) ↔
      ∀ k < n, FloatFits (word m (p + 4 * k)) := by
  have hrun : wmtPcmFmtTrans .float channels m p (4 * n) = (range n).flatMap fun k =>
      frameBytes channels (floatData (word m (p + 4 * k))) := by
    unfold wmtPcmFmtTrans
    rw [Nat.mul_div_cancel_left _ (by decide)]
    rcases hch with rfl | rfl
    · refine flatMap_congr fun k _ => ?_
      rw [wordBytes_dup]
      rfl
    · rfl
  obtain ⟨c, hc⟩ := length_frameBytes channels
  rw [hrun, flatMap_range_inj (fun _ => hc _) (fun _ => hc _)]
  refine forall_congr' fun k => forall_congr' fun _ => ?_
  rw [frameBytes_inj, floatData_iff]

/-- The number is -1, or its distance to 0 is less than 1 and at least `2 ^ -23`. -/
def Scaled (f : BitVec 32) : Prop := 104 ≤ floatExp f ∧ floatExp f ≤ 126 ∨ f = 0xBF800000#32

/-- A float from -1 to 1 that is shifted by less than 32 and stored as its number is `Scaled`. -/
lemma scaled_iff (f : BitVec 32) :
    ((floatUnits f).natAbs ≤ 2 ^ 150 ∧ (135 : Int) - floatExp f < 32) ∧ FloatFits f ↔ Scaled f := by
  have hfrac : (f.setWidth 23).toNat < 2 ^ 23 := (f.setWidth 23).isLt
  have habs : floatExp f ≠ 0 → (floatUnits f).natAbs = mantissa f * 2 ^ floatExp f := by
    intro hne
    unfold floatUnits
    dsimp only
    rw [if_neg hne]
    unfold mantissa
    split <;> omega
  constructor
  · rintro ⟨⟨hle, hshift⟩, hfits⟩
    rw [habs (by omega)] at hle
    by_cases hsmall : floatExp f ≤ 126
    · exact .inl ⟨by omega, hsmall⟩
    refine .inr ?_
    -- 1 and -1 are left, and 1 does not fit
    have hone : floatExp f = 127 ∧ (f.setWidth 23).toNat = 0 := by
      have hexp : floatExp f < 128 := by
        by_contra! hge
        have hbig : 2 ^ 23 * 2 ^ 128 ≤ mantissa f * 2 ^ floatExp f :=
          Nat.mul_le_mul (by unfold mantissa; omega) (Nat.pow_le_pow_right (by decide) hge)
        omega
      have h127 : floatExp f = 127 := by omega
      rw [h127] at hle
      unfold mantissa at hle
      exact ⟨h127, by omega⟩
    have hsign : f.msb = true := by
      rcases hfits with hsmall' | ⟨-, hkept⟩
      · exact absurd hsmall' hsmall
      · by_contra hpos
        rw [if_neg hpos, mantissa, hone.1, hone.2] at hkept
        exact absurd hkept (by decide)
    rw [BitVec.msb_eq_decide, decide_eq_true_iff] at hsign
    have hexp : f.toNat / 2 ^ 23 % 2 ^ 8 = 127 := by
      rw [← hone.1, floatExp, BitVec.toNat_setWidth, BitVec.toNat_ushiftRight,
        shiftRight_eq_div_pow]
    have hlow : f.toNat % 2 ^ 23 = 0 := by rw [← hone.2, BitVec.toNat_setWidth]
    apply BitVec.eq_of_toNat_eq
    have hf := f.isLt
    change f.toNat = 0xBF800000
    omega
  · rintro (⟨hlo, hhi⟩ | rfl)
    · refine ⟨⟨?_, by omega⟩, .inl hhi⟩
      rw [habs (by omega)]
      calc mantissa f * 2 ^ floatExp f ≤ 2 ^ 24 * 2 ^ 126 :=
            Nat.mul_le_mul (by unfold mantissa; omega) (Nat.pow_le_pow_right (by decide) hhi)
        _ = 2 ^ 150 := by decide
    · exact ⟨⟨by decide +kernel, by decide⟩, .inr ⟨by decide, by decide +kernel⟩⟩

/-- Floats from -1 to 1 are shifted by less than 32 and stored as their numbers, a single channel on
both, exactly if all are -1 or at least `2 ^ -23` and less than 1 away from 0. The number in 16 bits
grows with the float. -/
theorem wmtPcmFmtTrans_scaled {channels : Nat} (hch : channels = 1 ∨ channels = 2) (m : Mem)
    (p n : Nat) :
    (∀ v w, v ≤ w → toS16 v ≤ toS16 w) ∧
    ((∀ k < n, (floatUnits (word m (p + 4 * k))).natAbs ≤ 2 ^ 150 ∧
          (135 : Int) - floatExp (word m (p + 4 * k)) < 32) ∧
        wmtPcmFmtTrans .float channels m p (4 * n) = (range n).flatMap (fun k =>
          let x := halfBytes (BitVec.ofInt 16 (toS16 (floatUnits (word m (p + 4 * k)))))
          if channels = 1 then x ++ x else x) ↔
      ∀ k < n, Scaled (word m (p + 4 * k))) := by
  refine ⟨fun v w => toS16_mono, ?_⟩
  have htrans := wmtPcmFmtTrans_float_iff (m := m) (p := p) (n := n) hch
  rw [show (fun k => frameBytes channels
    (BitVec.ofInt 16 (toS16 (floatUnits (word m (p + 4 * k)))))) =
    fun k => (let x := halfBytes (BitVec.ofInt 16 (toS16 (floatUnits (word m (p + 4 * k)))))
      if channels = 1 then x ++ x else x) from rfl] at htrans
  rw [htrans, ← forall₂_and]
  exact forall₂_congr fun k _ => scaled_iff _

/-- A buffer with one float, of which the low half is 0. -/
def floatMem (top : BitVec 16) : Mem := fun i =>
  [0#8, 0#8, top.setWidth 8, (top >>> 8).setWidth 8].getD i 0#8

theorem wmtPcmFmtTrans_scaled_half :
    wmtPcmFmtTrans .float 1 (floatMem 0xBF00#16) 0 4 = [0x00#8, 0xC0#8, 0x00#8, 0xC0#8] := by
  have hscaled : ∀ k < 1, Scaled (word (floatMem 0xBF00#16) (0 + 4 * k)) := by
    intro k hk
    obtain rfl : k = 0 := by omega
    exact .inl (by decide)
  exact ((wmtPcmFmtTrans_scaled (.inl rfl) (floatMem 0xBF00#16) 0 1).2.mpr hscaled).2.trans
    (by decide +kernel)

/-- The float 1 is stored as the least number of 16 bits, and 0 is shifted by 135. -/
theorem float_one_negative :
    wmtPcmFmtTrans .float 2 (floatMem 0x3F80#16) 0 4 = halfBytes 0x8000#16 ∧
    toS16 (floatUnits (word (floatMem 0x3F80#16) 0)) = 0x7FFF ∧
      (135 : Int) - floatExp 0#32 = 135 := by
  decide +kernel

end Wm8850.Pcm
