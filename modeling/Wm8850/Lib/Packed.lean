import Mathlib.Data.Nat.Bitwise
import Wm8850.Lib.Word

/-! # Entries of a few bits, packed in bytes

Entries of `w` bits are packed in bytes, the first one in the low bits. `entry w m n` reads the
entry `n`, `orAt` sets bits of one and `clearAt` clears them, and the others stay. `Updates` is what
a loop over consecutive entries did. -/

namespace Wm8850.Lib

open List

def lowMask (w : Nat) : BitVec 8 := BitVec.ofNat 8 (2 ^ w - 1)

def field (w k : Nat) (b : BitVec 8) : BitVec 8 := (b >>> (w * k)) &&& lowMask w

def entry (w : Nat) (m : Bytes) (n : Nat) : BitVec 8 := field w (n % (8 / w)) (m (n / (8 / w)))

def orAt (m : Bytes) (p : Nat) (v : BitVec 8) : Bytes := fun q => if q = p then m q ||| v else m q

def clearAt (m : Bytes) (p : Nat) (v : BitVec 8) : Bytes := fun q =>
  if q = p then m q &&& ~~~ v else m q

def window (p : Nat) (m : Bytes) : Bytes := fun q => m (p + q)

/-! ### One byte -/

variable {w i n : Nat} {v : BitVec 8}

lemma getLsbD_lowMask (w i : Nat) : (lowMask w).getLsbD i = (decide (i < w) && decide (i < 8)) := by
  rw [lowMask, BitVec.getLsbD_ofNat, Nat.testBit_two_pow_sub_one, Bool.and_comm]

lemma getLsbD_field (w k : Nat) (b : BitVec 8) (i : Nat) :
    (field w k b).getLsbD i = (b.getLsbD (w * k + i) && decide (i < w)) := by
  rw [field, BitVec.getLsbD_and, BitVec.getLsbD_ushiftRight, getLsbD_lowMask]
  by_cases hi : i < 8
  · simp [hi]
  · rw [BitVec.getLsbD_of_ge b _ (by omega)]
    simp

def Fits (w : Nat) (v : BitVec 8) : Prop := v &&& lowMask w = v

instance (w : Nat) (v : BitVec 8) : Decidable (Fits w v) := inferInstanceAs (Decidable (_ = _))

lemma Fits.getLsbD (h : Fits w v) (hi : w ≤ i) : v.getLsbD i = false := by
  rw [← h, BitVec.getLsbD_and, getLsbD_lowMask]
  simp [not_lt.mpr hi]

section
variable {w k : Nat} {v : BitVec 8}

section
variable (h : Fits w v) (hk : w * (k + 1) ≤ 8) (j : Nat)
include h hk

lemma Fits.getLsbD_shift (hi : i < w) :
    (v <<< (w * k)).getLsbD (w * j + i) = (decide (j = k) && v.getLsbD i) := by
  rw [Nat.mul_succ] at hk
  rw [BitVec.getLsbD_shiftLeft]
  rcases lt_trichotomy j k with hlt | heq | hgt
  · have hle : w * (j + 1) ≤ w * k := Nat.mul_le_mul_left w hlt
    rw [Nat.mul_succ] at hle
    have hbelow : w * j + i < w * k := by omega
    simp [hbelow, ne_of_lt hlt]
  · subst heq
    have hin : w * j + i < 8 := by omega
    simp [hin]
  · have hle : w * (k + 1) ≤ w * j := Nat.mul_le_mul_left w hgt
    rw [Nat.mul_succ] at hle
    have hzero : v.getLsbD (w * j + i - w * k) = false := h.getLsbD (by omega)
    simp [hzero, ne_of_gt hgt]

lemma field_or (b : BitVec 8) :
    field w j (b ||| v <<< (w * k)) = if j = k then field w j b ||| v else field w j b := by
  apply BitVec.eq_of_getLsbD_eq
  intro i _
  rw [getLsbD_field, BitVec.getLsbD_or]
  by_cases hi : i < w
  · rw [h.getLsbD_shift hk j hi]
    split
    case isTrue heq => simp [getLsbD_field, hi, heq]
    case isFalse hne => simp [getLsbD_field, hne]
  · have hout : v.getLsbD i = false := h.getLsbD (not_lt.mp hi)
    split <;> simp [getLsbD_field, hi, hout]

lemma field_clear (b : BitVec 8) :
    field w j (b &&& ~~~ (v <<< (w * k))) = if j = k then field w j b &&& ~~~ v
      else field w j b := by
  apply BitVec.eq_of_getLsbD_eq
  intro i hi8
  rw [getLsbD_field, BitVec.getLsbD_and, BitVec.getLsbD_not]
  by_cases hi : i < w
  · rw [h.getLsbD_shift hk j hi]
    split
    case isTrue heq =>
      subst heq
      rw [Nat.mul_succ] at hk
      have hin : w * j + i < 8 := by omega
      rw [BitVec.getLsbD_and, getLsbD_field]
      simp [hi, hin, hi8]
    case isFalse hne =>
      by_cases hin : w * j + i < 8
      · simp [getLsbD_field, hin, hne]
      · rw [getLsbD_field, BitVec.getLsbD_of_ge b _ (not_lt.mp hin)]
        simp
  · split <;> simp [getLsbD_field, hi]

end

end

/-! ### An array -/

section
variable {w : Nat} (hw : 0 < 8 / w)
include hw

lemma entry_fits (k : Nat) : w * (k % (8 / w) + 1) ≤ 8 :=
  (Nat.mul_le_mul_left w (Nat.mod_lt k hw)).trans (Nat.mul_div_le 8 w)

omit hw in
lemma entry_writeAt {f g : BitVec 8 → BitVec 8}
    (hwrite : ∀ i b, field w i (f b) = if i = n % (8 / w) then g (field w i b) else field w i b)
    (m : Bytes) (j : Nat) : entry w (fun q => if q = n / (8 / w) then f (m q) else m q) j
      = if j = n then g (entry w m j) else entry w m j := by
  unfold entry
  beta_reduce
  by_cases hbyte : j / (8 / w) = n / (8 / w)
  · rw [if_pos hbyte, hwrite]
    by_cases heq : j = n
    · rw [if_pos heq, if_pos (congrArg (· % (8 / w)) heq)]
    · have hne : j % (8 / w) ≠ n % (8 / w) := fun hmod =>
        heq (by rw [← Nat.div_add_mod j (8 / w), hbyte, hmod, Nat.div_add_mod])
      rw [if_neg heq, if_neg hne]
  · have hne : j ≠ n := fun heq => hbyte (congrArg (· / (8 / w)) heq)
    rw [if_neg hbyte, if_neg hne]

lemma entry_orAt (h : Fits w v) (m : Bytes) (n j : Nat) :
    entry w (orAt m (n / (8 / w)) (v <<< (w * (n % (8 / w))))) j
      = if j = n then entry w m j ||| v else entry w m j :=
  entry_writeAt (f := fun b => b ||| v <<< (w * (n % (8 / w)))) (g := (· ||| v))
    (field_or h (entry_fits hw n)) m j

lemma entry_clearAt (h : Fits w v) (m : Bytes) (n j : Nat) :
    entry w (clearAt m (n / (8 / w)) (v <<< (w * (n % (8 / w))))) j
      = if j = n then entry w m j &&& ~~~ v else entry w m j :=
  entry_writeAt (f := fun b => b &&& ~~~ (v <<< (w * (n % (8 / w))))) (g := (· &&& ~~~ v))
    (field_clear h (entry_fits hw n)) m j

end

lemma window_clearAt (p q : Nat) (m : Bytes) (v : BitVec 8) :
    window p (clearAt m (p + q) v) = clearAt (window p m) q v := by
  funext r
  simp [window, clearAt]

lemma entry_congr {m m' : Bytes} (h : m (n / (8 / w)) = m' (n / (8 / w))) :
    entry w m n = entry w m' n := by
  rw [entry, entry, h]

/-! ### Loops -/

/-- The entries from `lo` to `hi` were changed by `g`, and no other one. -/
def Updates (w : Nat) (m m' : Bytes) (lo hi : Nat) (g : Nat → BitVec 8 → BitVec 8) : Prop :=
  ∀ n, entry w m' n = if lo ≤ n ∧ n < hi then g n (entry w m n) else entry w m n

section
variable {w : Nat} {m m' m'' : Bytes} {lo mid hi : Nat} {g : Nat → BitVec 8 → BitVec 8}

lemma Updates.refl (w : Nat) (m : Bytes) (lo : Nat) (g : Nat → BitVec 8 → BitVec 8) :
    Updates w m m lo lo g := by
  intro n
  rw [if_neg (by omega)]

lemma Updates.one (h : ∀ j, entry w m' j = if j = lo then g j (entry w m j) else entry w m j) :
    Updates w m m' lo (lo + 1) g := by
  intro n
  rw [h n]
  by_cases heq : n = lo
  · rw [if_pos heq, if_pos (by omega)]
  · rw [if_neg heq, if_neg (by omega)]

lemma Updates.trans (h : Updates w m m' lo mid g) (h' : Updates w m' m'' mid hi g)
    (hlo : lo ≤ mid) (hhi : mid ≤ hi) : Updates w m m'' lo hi g := by
  intro n
  rw [h' n, h n]
  by_cases hmid : n < mid
  · rw [if_neg (by omega)]
    by_cases hn : lo ≤ n
    · rw [if_pos ⟨hn, hmid⟩, if_pos ⟨hn, by omega⟩]
    · rw [if_neg (by omega), if_neg (by omega)]
  · rw [if_neg (show ¬ (lo ≤ n ∧ n < mid) by omega)]
    by_cases hn : n < hi
    · rw [if_pos ⟨by omega, hn⟩, if_pos ⟨by omega, hn⟩]
    · rw [if_neg (by omega), if_neg (by omega)]

lemma foldl_same {σ ι τ : Type} (view : σ → τ) (f : σ → ι → σ) {l : List ι}
    (h : ∀ s, ∀ a ∈ l, view (f s a) = view s) (s : σ) : view (l.foldl f s) = view s := by
  induction l generalizing s with
  | nil => rfl
  | cons a l ih =>
    rw [foldl_cons, ih fun s' a' ha' => h s' a' (mem_cons_of_mem _ ha')]
    exact h s a mem_cons_self

variable (lo) in
/-- A loop whose rounds change `c` entries each. The invariant `P` says where its other variables
stand. -/
theorem Updates.loop {σ : Type} (view : σ → Bytes) (f : σ → Nat → σ) (P : Nat → σ → Prop) {c : Nat}
    (hstep : ∀ q < n, ∀ s, P q s →
      P (q + 1) (f s q) ∧ Updates w (view s) (view (f s q)) (lo + c * q) (lo + c * (q + 1)) g)
    {s : σ} (h0 : P 0 s) : P n ((range n).foldl f s) ∧
      Updates w (view s) (view ((range n).foldl f s)) lo (lo + c * n) g := by
  induction n with
  | zero => exact ⟨h0, Updates.refl w _ lo g⟩
  | succ q ih =>
    obtain ⟨hP, hupd⟩ := ih fun q' hq' => hstep q' (by omega)
    obtain ⟨hP', hupd'⟩ := hstep q (Nat.lt_succ_self q) _ hP
    have hrange : (range (q + 1)).foldl f s = f ((range q).foldl f s) q := by
      rw [range_succ, foldl_append, foldl_cons, foldl_nil]
    rw [hrange]
    exact ⟨hP', hupd.trans hupd' (by omega) (by rw [Nat.mul_succ]; omega)⟩

end

end Wm8850.Lib
