import Mathlib.Data.List.GetD
import Wm8850.Lib.Lfsr
import Wm8850.Nand.Bch

/-! # Which parities are remainders

`Registers` relates the register of `bch_encoder` to the shift register of the library. Bits above
its last one are never cleared and never fed back.

What is wrong is the way out: `bch_encoder` reads the register from byte `3 - pari_lb / 8` of `p`,
so the parity is the reversed remainder only for `pari_lb = 15`, the codes of 24 and 40 bits. For 16
and 44 bits `Gen_GF2` has no polynomial. -/

namespace Wm8850.Nand

open Lib Polynomial Function List Nat Bool

variable {n j k : Nat} {bchSera : List Bool} {c : BchCode} {i pariLb bits w u t : Nat} {α : Type*}
    {pariA : List (BitVec 32)} {bchGF2 : List Nat} {info : EccSizeInfo}

def wordBit (a : List (BitVec 32)) (k : Nat) : Bool := (a.getD (k / 32) 0).getLsbD (k % 32)

def dataBits (data : List (BitVec 32)) : List Bool :=
  data.flatMap fun w => (range 32).map w.getLsbD

/-! ### Words -/

lemma getLsbD_and_one (x : BitVec 32) (i : Nat) :
    (x &&& 1).getLsbD i = (decide (i = 0) && x.getLsbD 0) := by
  cases i <;> simp

lemma getLsbD_add_of_disjoint {x y : BitVec n} (h : ∀ i, x.getLsbD i = false ∨ y.getLsbD i = false)
    (i : Nat) :
    (x + y).getLsbD i = (x.getLsbD i || y.getLsbD i) := by
  have hand : x &&& y = 0#n := by
    refine BitVec.eq_of_getLsbD_eq fun j _ => ?_
    rcases h j with hj | hj <;> simp [hj]
  rw [BitVec.add_eq_or_of_and_eq_zero _ _ hand, BitVec.getLsbD_or]

lemma getLsbD_add_one {y : BitVec 32} (hy : y.getLsbD 0 = false) (tmp : BitVec 32) (i : Nat) :
    (y + (tmp &&& 1)).getLsbD i = if i = 0 then tmp.getLsbD 0 else y.getLsbD i := by
  have hdisjoint : ∀ j, y.getLsbD j = false ∨ (tmp &&& 1).getLsbD j = false := by
    intro j
    rw [getLsbD_and_one]
    cases j with
    | zero => exact .inl hy
    | succ j => exact .inr rfl
  rw [getLsbD_add_of_disjoint hdisjoint, getLsbD_and_one]
  cases i with
  | zero => rw [hy]; rfl
  | succ i => exact or_false _

lemma getLsbD_shift_carry (x y : BitVec 32) (hj : j < 32) :
    ((x <<< 1) + (y >>> 31)).getLsbD j = if j = 0 then y.getLsbD 31 else x.getLsbD (j - 1) := by
  have hcarry : ∀ i, (y >>> 31).getLsbD i = (decide (i = 0) && y.getLsbD 31) := by
    intro i
    rw [BitVec.getLsbD_ushiftRight]
    cases i with
    | zero => rfl
    | succ i => exact BitVec.getLsbD_of_ge y _ (by omega)
  have hdisjoint : ∀ i, (x <<< 1).getLsbD i = false ∨ (y >>> 31).getLsbD i = false := by
    intro i
    rw [hcarry, BitVec.getLsbD_shiftLeft]
    cases i with
    | zero => exact .inl rfl
    | succ i => exact .inr rfl
  rw [getLsbD_add_of_disjoint hdisjoint, hcarry, BitVec.getLsbD_shiftLeft, decide_eq_true hj]
  cases j with
  | zero => rfl
  | succ j => exact or_false _

lemma eq_bit_of_getLsbD {b : Bool} {x : BitVec 32}
    (h : ∀ j, x.getLsbD j = (decide (j = 0) && b)) : x = if b then 1 else 0 := by
  refine BitVec.eq_of_getLsbD_eq fun j _ => ?_
  rw [h j]
  cases b with
  | false => simp
  | true =>
    simp

lemma getLsbD_reverse32Loop (m : Nat) (tmp y : BitVec 32) (hy : y.getLsbD 0 = false)
    (hi : i < 32) : (reverse32Loop m tmp y).getLsbD i
      = if i ≤ m then tmp.getLsbD (m - i) else y.getLsbD (i - m) := by
  induction m generalizing tmp y with
  | zero =>
    rw [reverse32Loop, getLsbD_add_one hy]
    cases i with
    | zero => rfl
    | succ i => rfl
  | succ m ih =>
    rw [reverse32Loop, ih _ _ (by rw [BitVec.getLsbD_shiftLeft]; rfl)]
    rw [BitVec.getLsbD_ushiftRight, BitVec.getLsbD_shiftLeft, getLsbD_add_one hy]
    rcases lt_trichotomy i (m + 1) with hlt | heq | hgt
    · rw [if_pos (by omega), if_pos (by omega), show 1 + (m - i) = m + 1 - i by omega]
    · rw [if_neg (by omega), if_pos (by omega), if_pos (by omega), heq, Nat.sub_self,
        decide_eq_true (by omega), decide_eq_false (by omega)]
      rfl
    · rw [if_neg (by omega), if_neg (by omega), if_neg (by omega), decide_eq_true (by omega),
        decide_eq_false (by omega)]
      rfl

lemma getLsbD_reverse32 (n : BitVec 32) (hi : i < 32) :
    (reverse32 n).getLsbD i = n.getLsbD (31 - i) := by
  rw [reverse32, getLsbD_reverse32Loop 31 n 0 (by decide) hi, if_pos (by omega)]

lemma getLsbD_bytesOf (ws : Nat → BitVec 32) (b : Nat) (hk : k < 8) :
    (bytesOf ws b).getLsbD k = (ws (b / 4)).getLsbD (8 * (b % 4) + k) := by
  rw [bytesOf, BitVec.getLsbD_extractLsb', decide_eq_true hk, Bool.true_and]

lemma getLsbD_loadWord (ws : Nat → BitVec 32) (q : Nat) (hj : j < 32) :
    (loadWord (bytesOf ws) q).getLsbD j = (ws ((8 * q + j) / 32)).getLsbD ((8 * q + j) % 32) := by
  have hword : (loadWord (bytesOf ws) q).getLsbD j = (bytesOf ws (q + j / 8)).getLsbD (j % 8) := by
    rw [loadWord, BitVec.getLsbD_append, BitVec.getLsbD_append, BitVec.getLsbD_append]
    rcases lt_or_ge j 8 with h8 | h8
    · rw [if_pos h8, div_eq_of_lt h8, mod_eq_of_lt h8, add_zero]
    rw [if_neg (by omega)]
    rcases lt_or_ge j 16 with h16 | h16
    · rw [if_pos (by omega), show j / 8 = 1 by omega, show j % 8 = j - 8 by omega]
    rw [if_neg (by omega)]
    rcases lt_or_ge j 24 with h24 | h24
    · rw [if_pos (by omega), show j / 8 = 2 by omega, show j % 8 = j - 8 - 8 by omega]
    · rw [if_neg (by omega), show j / 8 = 3 by omega, show j % 8 = j - 8 - 8 - 8 by omega]
  rw [hword, getLsbD_bytesOf _ _ (mod_lt _ (by decide)),
    show (q + j / 8) / 4 = (8 * q + j) / 32 by omega,
    show 8 * ((q + j / 8) % 4) + j % 8 = (8 * q + j) % 32 by omega]

/-! ### The register in words -/

lemma getD_set_eq (l : List α) (i j : Nat) (a d : α) (hi : i < l.length) :
    (l.set i a).getD j d = if i = j then a else l.getD j d := by
  rw [getD_eq_getElem?_getD, getElem?_set, getD_eq_getElem?_getD]
  by_cases hij : i = j
  · rw [if_pos hij, if_pos hij, if_pos hi, Option.getD_some]
  · rw [if_neg hij, if_neg hij]

def nextWord (bchGF2 : List (BitVec 32)) (feedback : Bool) (pariA : List (BitVec 32)) (i : Nat) :
    BitVec 32 :=
  ((pariA.getD i 0 <<< 1) + (if i = 0 then 0#32 else pariA.getD (i - 1) 0 >>> 31)) ^^^
    (if feedback then bchGF2.getD i 0 else 0)

lemma length_caculatLoop (bchGF2 : List (BitVec 32)) (feedback : Bool) (n : Nat)
    (pariA : List (BitVec 32)) : (caculatLoop bchGF2 feedback n pariA).length = pariA.length := by
  induction n generalizing pariA with
  | zero => exact length_set
  | succ n ih => rw [caculatLoop, ih, length_set]

lemma getD_caculatLoop (bchGF2 : List (BitVec 32)) (feedback : Bool)
    (hn : n < pariA.length) (i : Nat) : (caculatLoop bchGF2 feedback n pariA).getD i 0
      = if i ≤ n then nextWord bchGF2 feedback pariA i else pariA.getD i 0 := by
  induction n generalizing pariA with
  | zero =>
    rw [caculatLoop, getD_set_eq _ _ _ _ _ hn]
    rcases Nat.eq_zero_or_pos i with rfl | hpos
    · rw [if_pos rfl, if_pos (le_refl 0), nextWord, if_pos rfl, BitVec.add_zero]
    · rw [if_neg (by omega), if_neg (by omega)]
  | succ n ih =>
    rw [caculatLoop, ih (by rw [length_set]; omega)]
    have hset := fun j v => getD_set_eq pariA (n + 1) j v (0 : BitVec 32) hn
    rcases lt_trichotomy i (n + 1) with hlt | heq | hgt
    · have hi : ¬ n + 1 = i := by omega
      have hpred : ¬ n + 1 = i - 1 := by omega
      rw [if_pos (by omega : i ≤ n), if_pos (by omega : i ≤ n + 1)]
      simp only [nextWord, hset, if_neg hi, if_neg hpred]
    · subst heq
      rw [if_neg (not_succ_le_self n), if_pos (le_refl _), hset, if_pos rfl, nextWord,
        if_neg (succ_ne_zero n), Nat.add_sub_cancel]
    · rw [if_neg (by omega : ¬ i ≤ n), if_neg (by omega : ¬ i ≤ n + 1), hset,
        if_neg (by omega : ¬ n + 1 = i)]

lemma wordBit_caculatLoop (bchGF2 : List (BitVec 32)) (feedback : Bool)
    (hn : n < pariA.length) (hk : k / 32 ≤ n) : wordBit (caculatLoop bchGF2 feedback n pariA) k
      = ((if k = 0 then false else wordBit pariA (k - 1)) ^^ (feedback && wordBit bchGF2 k)) := by
  rw [wordBit, getD_caculatLoop bchGF2 feedback hn, if_pos hk, nextWord, BitVec.getLsbD_xor]
  congr 1
  · -- the first word has no carry, as if an empty word were below
    have hbelow : (if k / 32 = 0 then 0#32 else pariA.getD (k / 32 - 1) 0 >>> 31)
        = (if k / 32 = 0 then 0#32 else pariA.getD (k / 32 - 1) 0) >>> 31 := by
      split <;> rfl
    rw [hbelow, getLsbD_shift_carry _ _ (mod_lt k (by decide))]
    rcases Nat.eq_zero_or_pos (k % 32) with hm | hm
    · rw [if_pos hm]
      rcases Nat.eq_zero_or_pos (k / 32) with hd | hd
      · rw [if_pos hd, if_pos (by omega)]
        rfl
      · rw [if_neg (by omega), if_neg (by omega), wordBit,
          show (k - 1) / 32 = k / 32 - 1 by omega, show (k - 1) % 32 = 31 by omega]
    · rw [if_neg (by omega), if_neg (by omega), wordBit, show (k - 1) / 32 = k / 32 by omega,
        show (k - 1) % 32 = k % 32 - 1 by omega]
  · cases feedback with
    | false => exact BitVec.getLsbD_zero
    | true => rfl

lemma lastBit_eq (lastWord : BitVec 32) (hlb : pariLb < 31) :
    (~~~(0xffffffff#32 <<< (pariLb + 1)) &&& lastWord) >>> pariLb
      = if lastWord.getLsbD pariLb then 1 else 0 := by
  refine eq_bit_of_getLsbD fun j => ?_
  rw [BitVec.getLsbD_ushiftRight, BitVec.getLsbD_and, BitVec.getLsbD_not, BitVec.getLsbD_shiftLeft]
  cases j with
  | zero => simp [show pariLb < 32 by omega]
  | succ j =>
    rcases lt_or_ge (pariLb + (j + 1)) 32 with hlt | hge
    · have hone : (0xffffffff#32).getLsbD (pariLb + (j + 1) - (pariLb + 1)) = true := by
        rw [show (0xffffffff#32) = BitVec.allOnes 32 from rfl, BitVec.getLsbD_allOnes]
        exact decide_eq_true (by omega)
      rw [hone, decide_eq_true hlt, decide_eq_false (by omega)]
      rfl
    · rw [BitVec.getLsbD_of_ge lastWord _ hge]
      simp

lemma feedback_eq (tmp lastWord : BitVec 32) (hlb : pariLb < 31) :
    ((tmp &&& 1) ^^^ ((~~~(0xffffffff#32 <<< (pariLb + 1)) &&& lastWord) >>> pariLb) != 0)
      = (tmp.getLsbD 0 ^^ lastWord.getLsbD pariLb) := by
  rw [lastBit_eq lastWord hlb, eq_bit_of_getLsbD (getLsbD_and_one tmp)]
  cases tmp.getLsbD 0 <;> cases lastWord.getLsbD pariLb <;> decide

/-- The words hold the shift register up to the bit `w`. -/
structure Registers (w : Nat) (pariA : List (BitVec 32)) (r : Nat → Bool) : Prop where
  length : pariA.length = w / 32 + 1
  bits : ∀ k ≤ w, wordBit pariA k = r k

section
variable {w : Nat} {pariA : List (BitVec 32)} {r : Nat → Bool} (bchGF2 : List (BitVec 32))

lemma Registers.zero (w : Nat) : Registers w (replicate (w / 32 + 1) 0) fun _ => false := by
  refine ⟨length_replicate, fun k hk => ?_⟩
  have hlt : k / 32 < w / 32 + 1 := lt_succ_of_le (Nat.div_le_div_right hk)
  rw [wordBit, getD_replicate _ hlt]
  exact BitVec.getLsbD_zero

section
variable (h : Registers w pariA r) (hw : w % 32 < 31)
include h hw

lemma Registers.caculat1bBch (tmp : BitVec 32) :
    Registers w (caculat1bBch pariA bchGF2 (tmp &&& 1) (w / 32) (w % 32)).1
      (lfsrStep w (wordBit bchGF2) r (tmp.getLsbD 0)) := by
  have hlen : w / 32 < pariA.length := by rw [h.length]; exact lt_succ_self _
  refine ⟨(length_caculatLoop _ _ _ _).trans h.length, fun k hk => ?_⟩
  have hmsb : (pariA.getD (w / 32) 0).getLsbD (w % 32) = r w := h.bits w (le_refl w)
  rw [Nand.caculat1bBch, wordBit_caculatLoop _ _ hlen (Nat.div_le_div_right hk)]
  rw [feedback_eq tmp _ hw, hmsb]
  cases k with
  | zero => rw [if_pos rfl, lfsrStep, false_xor]
  | succ k => rw [if_neg (succ_ne_zero k), lfsrStep, Nat.add_sub_cancel, h.bits k (by omega)]

lemma Registers.encodeWord (n : Nat)
    (tmp : BitVec 32) : Registers w (encodeWord bchGF2 (w / 32) (w % 32) n tmp pariA)
      (lfsrRun w (wordBit bchGF2) r ((range n).map tmp.getLsbD)) := by
  induction n generalizing tmp pariA r with
  | zero => exact h
  | succ n ih =>
    have hbits : (range (n + 1)).map tmp.getLsbD = tmp.getLsbD 0 :: (range n).map
        (tmp >>> 1).getLsbD := by
      rw [range_succ_eq_map, map_cons, map_map]
      refine congrArg _ (map_congr_left fun j _ => ?_)
      rw [Function.comp, BitVec.getLsbD_ushiftRight, add_comm]
    rw [hbits]
    exact ih (h.caculat1bBch bchGF2 hw tmp) (tmp >>> 1)

lemma Registers.encode (data : List (BitVec 32)) : Registers w
      (data.foldl (fun p1 tmp => Nand.encodeWord bchGF2 (w / 32) (w % 32) 32 tmp p1) pariA)
      (lfsrRun w (wordBit bchGF2) r (dataBits data)) := by
  induction data generalizing pariA r with
  | nil => exact h
  | cons tmp data ih =>
    rw [dataBits, flatMap_cons, lfsrRun, foldl_append]
    exact ih (h.encodeWord bchGF2 hw 32 tmp)

end

end

/-! ### The parity -/

lemma wordBit_bchEncoder (hwidth : (genGF2 bits).1 = w) (hw : w % 32 < 31)
    (parity data : List (BitVec 32)) {s : Nat} (hs : s < 32 * (w / 32 + 1)) (hk : k ≤ w)
    (hplace : s + k + 8 * (w % 32 / 8) = 32 * (w / 32) + 23) :
    wordBit (bchEncoder true parity data bits).2 s
      = lfsrRun w (wordBit (genGF2 bits).2) (fun _ => false) (dataBits data) k := by
  have hreg := (Registers.zero w).encode (genGF2 bits).2 hw data
  rw [← hreg.bits k hk, bchEncoder, if_pos rfl, hwidth]
  have hword : s / 32 < w / 32 + 1 := by omega
  rw [wordBit, getD_append _ _ _ _ (by rw [length_map, length_range]; exact hword),
    getD_eq_getElem?_getD, getElem?_map, getElem?_range hword, Option.map_some,
    Option.getD_some, getLsbD_reverse32 _ (mod_lt _ (by decide)),
    getLsbD_loadWord _ _ (by omega)]
  -- the word in front of the register puts its bits 32 places behind
  have hbit : 8 * (3 - w % 32 / 8 + 4 * (w / 32 - s / 32)) + (31 - s % 32) = k + 32 := by omega
  rw [hbit, add_div_right _ (by decide), add_mod_right, getD_cons_succ, wordBit]

/-! ### The reference -/

/-- The coefficients of a polynomial of `wmt_bchencoder`, which has the highest one first. -/
def refCoeff (width : Nat) (bchGF2 : List Nat) (k : Nat) : Bool := bchGF2.getD (width - k) 0 == 1

lemma getD_map_range (f : Nat → α) (d : α) (hk : k < n) : ((range n).map f).getD k d = f k := by
  rw [getD_eq_getElem?_getD, getElem?_map, getElem?_range hk, Option.map_some, Option.getD_some]

lemma flatMap_leBytes (data : List (BitVec 32)) :
    ((data.flatMap leBytes).flatMap fun byte => (range 8).map byte.getLsbD) = dataBits data := by
  rw [flatMap_assoc, dataBits]
  simp [leBytes, range_succ]

/-- `bch_sera` is the shift register, since the polynomial has the coefficient 1 at its end. -/
theorem getD_bchSera (hone : refCoeff w bchGF2 0 = true) (ds : List Bool) (hk : k ≤ w) :
    (ds.foldl (bchSeraStep w bchGF2) (replicate (w + 1) false)).getD k false
      = lfsrRun w (refCoeff w bchGF2) (fun _ => false) ds k := by
  induction ds using reverseRecOn generalizing k with
  | nil => exact getD_replicate _ (by omega)
  | append_singleton ds d ih =>
    rw [lfsrRun_concat, foldl_append, foldl_cons, foldl_nil, bchSeraStep,
      getD_map_range _ _ (by omega), ih (le_refl w)]
    cases k with
    | zero => rw [if_pos rfl, lfsrStep, hone, Bool.and_true, Bool.xor_comm]
    | succ k =>
      rw [ih (by omega), lfsrStep, Bool.xor_comm d]
      rfl

structure CodeOf (bchSera : List Bool) (j : Nat) (c : BchCode) : Prop where
  i : c.i = j / 8
  retval : c.retval = 0
  codelen : 0 < j → c.bchCodelen = (j - 1) / 8 + 1
  bits : ∀ b ≤ j / 8, ∀ u < 8,
    (c.bchCode b).getLsbD u = (decide (8 * b + 7 - u < j) && bchSera.getD (8 * b + 7 - u) false)

lemma getLsbD_codeBit (b : Bool) {m : Nat} (hm : m < 8) (v : Nat) :
    (if b then 1#8 <<< m else 0).getLsbD v = (decide (v = m) && b) := by
  cases b with
  | false => simp
  | true =>
    rw [if_pos rfl, BitVec.getLsbD_shiftLeft, BitVec.getLsbD_one, Bool.and_true, Bool.eq_iff_iff]
    simp only [Bool.and_eq_true, decide_eq_true_eq, Bool.not_eq_true', decide_eq_false_iff_not]
    omega

lemma CodeOf.add_bit (h : CodeOf bchSera j c) (hu : u < 8) :
    (c.bchCode (j / 8) + (if bchSera.getD j false then 1#8 <<< (7 - j % 8) else 0)).getLsbD u
      = (decide (8 * (j / 8) + 7 - u < j + 1) && bchSera.getD (8 * (j / 8) + 7 - u) false) := by
  have hcode := getLsbD_codeBit (bchSera.getD j false) (show 7 - j % 8 < 8 by omega)
  have hdisjoint : ∀ v, (c.bchCode (j / 8)).getLsbD v = false ∨
      (if bchSera.getD j false then 1#8 <<< (7 - j % 8) else 0).getLsbD v = false := by
    intro v
    by_cases hv : v = 7 - j % 8
    · rw [h.bits _ (le_refl _) v (by omega), decide_eq_false (by omega)]
      exact .inl rfl
    · rw [hcode, decide_eq_false hv]
      exact .inr rfl
  rw [getLsbD_add_of_disjoint hdisjoint, hcode, h.bits _ (le_refl _) u hu]
  by_cases hv : u = 7 - j % 8
  · rw [decide_eq_true hv, decide_eq_false (by omega), decide_eq_true (by omega),
      show 8 * (j / 8) + 7 - u = j by omega]
    rfl
  · rw [decide_eq_false hv, Bool.false_and, Bool.or_false]
    congr 2
    exact propext ⟨fun h => by omega, fun h => by omega⟩

lemma CodeOf.update_bit (h : CodeOf bchSera j c) {b : Nat} (hb : b ≤ j / 8) (hu : u < 8) :
    (update c.bchCode c.i (c.bchCode c.i
      + if bchSera.getD j false then 1#8 <<< (7 - j % 8) else 0) b).getLsbD u
      = (decide (8 * b + 7 - u < j + 1) && bchSera.getD (8 * b + 7 - u) false) := by
  rw [h.i]
  rcases lt_or_eq_of_le hb with hlt | heq
  · rw [update_of_ne (by omega), h.bits b hb u hu, decide_eq_true (by omega),
      decide_eq_true (by omega)]
  · rw [heq, update_self]
    exact h.add_bit hu

lemma CodeOf.loop {bchCodelenIn : Nat} (n : Nat) (h : CodeOf bchSera j c)
    (hend : j + n ≤ 8 * bchCodelenIn) :
    CodeOf bchSera (j + n) (bchCodeLoop bchSera 0 bchCodelenIn n j c) := by
  induction n generalizing j c with
  | zero => exact h
  | succ n ih =>
    have hfull : ¬ c.i ≥ bchCodelenIn := by
      rw [h.i]
      omega
    have hlen : c.i + 1 = (j + 1 - 1) / 8 + 1 := by rw [h.i, Nat.add_sub_cancel]
    rw [bchCodeLoop]
    simp only [if_neg hfull]
    rw [show j + (n + 1) = j + 1 + n by omega]
    split
    · -- the byte is full, and the next one is cleared
      next hlast =>
      have hnext : c.i + 1 = (j + 1) / 8 := by
        omega
      refine ih ⟨hnext, h.retval, fun _ => hlen, ?_⟩ (by omega)
      intro b hb u hu
      show (update (update c.bchCode c.i _) (c.i + 1) 0 b).getLsbD u = _
      rcases lt_or_ge (j / 8) b with hlt | hge
      · rw [h.i, show b = j / 8 + 1 by omega, update_self, decide_eq_false (by omega)]
        exact BitVec.getLsbD_zero
      · rw [update_of_ne (by omega)]
        exact h.update_bit hge hu
    next hlast =>
    have hsame : c.i = (j + 1) / 8 := by
      omega
    refine ih ⟨hsame, h.retval, fun _ => hlen, ?_⟩ (by omega)
    intro b hb u hu
    exact h.update_bit (by omega) hu

/-! ### The result -/

/-- Bit `t` of byte `k` is the coefficient of the remainder at the power `w - (8 * k + t)`, with
zeros behind, and the bytes are those of the reference in reverse order. -/
structure ParityCorrect (info : EccSizeInfo) (data parity : List (BitVec 32)) : Prop where
  remainder : ∃ w bchGF2, refTable info.oobMaxBitError = some (w, bchGF2) ∧
    ∀ k < info.oobEccBytes, ∀ t < 8,
      bitCoeff ((bytesOf (fun i => parity.getD i 0) k).getLsbD t)
        = if 8 * k + t ≤ w then
            ((messagePoly (dataBits data) * X ^ (w + 1)) %ₘ
              generatorPoly w (refCoeff w bchGF2)).coeff (w - (8 * k + t))
          else 0
  reference : ∀ bchCode,
    let c := wmtBchencoder (data.flatMap leBytes) bchCode info.oobMaxBitError info.oobEccBytes
    ∀ k < info.oobEccBytes, bytesOf (fun i => parity.getD i 0) k
      = if k < c.bchCodelen then c.bchCode (c.bchCodelen - 1 - k) else 0

lemma getLsbD_parityByte (parity : List (BitVec 32)) (k : Nat) (ht : t < 8) :
    (bytesOf (fun i => parity.getD i 0) k).getLsbD t = wordBit parity (8 * k + t) := by
  rw [getLsbD_bytesOf _ _ ht, wordBit, show (8 * k + t) / 32 = k / 4 by omega,
    show (8 * k + t) % 32 = 8 * (k % 4) + t by omega]

lemma wordBit_eq_getD (a : List (BitVec 32)) (k : Nat) :
    wordBit a k = (dataBits a).getD k false := by
  induction a generalizing k with
  | nil => simp [wordBit, dataBits]
  | cons w a ih =>
    rw [dataBits, flatMap_cons]
    rcases lt_or_ge k 32 with hlt | hge
    · rw [getD_append _ _ _ _ (by simpa using hlt), getD_map_range _ _ hlt, wordBit,
        div_eq_of_lt hlt, mod_eq_of_lt hlt, getD_cons_zero]
    · rw [getD_append_right _ _ _ _ (by simpa using hge), length_map, length_range,
        ← dataBits, ← ih, wordBit, wordBit, show k / 32 = (k - 32) / 32 + 1 by omega,
        show (k - 32) % 32 = k % 32 by omega, getD_cons_succ]

lemma refCoeff_eq_getD (hlen : bchGF2.length = w + 1) (hk : k ≤ w) :
    refCoeff w bchGF2 k = (bchGF2.reverse.map (· == 1)).getD k false := by
  have hlt : w - k < bchGF2.length := by omega
  rw [refCoeff, getD_eq_getElem?_getD, getD_eq_getElem?_getD, getElem?_map,
    getElem?_reverse (by omega), hlen, show w + 1 - 1 - k = w - k by omega,
    getElem?_eq_getElem hlt]
  rfl

lemma wordBit_genGF2_24 (hk : k ≤ 335) : wordBit (genGF2 24).2 k = refCoeff 335 refGF24becc k := by
  -- as lists the tables are compared in one pass
  have htables : (dataBits (genGF2 24).2).take 336 = refGF24becc.reverse.map (· == 1) := by
    decide +kernel
  rw [wordBit_eq_getD, refCoeff_eq_getD (by decide +kernel) hk, ← htables,
    getD_eq_getElem?_getD, getD_eq_getElem?_getD, getElem?_take_of_lt (by omega)]

lemma codeOf_wmtBchencoder (data : List (BitVec 32)) (bchCode : Nat → BitVec 8) :
    CodeOf ((dataBits data).foldl (bchSeraStep 335 refGF24becc) (replicate 336 false)) 336
      (wmtBchencoder (data.flatMap leBytes) bchCode 24 42) := by
  have hstart : CodeOf ((dataBits data).foldl (bchSeraStep 335 refGF24becc) (replicate 336 false)) 0
      { i := 0, bchCode := update bchCode 0 0, bchCodelen := 42, retval := 0 } := by
    refine ⟨rfl, rfl, fun h => absurd h (lt_irrefl 0), fun b hb u _ => ?_⟩
    rw [show b = 0 by omega]
    exact BitVec.getLsbD_zero
  rw [wmtBchencoder, flatMap_leBytes]
  exact hstart.loop 336 (by decide)

lemma getLsbD_parity_24 (parity data : List (BitVec 32)) (hk : k < 42) (ht : t < 8) :
    (bytesOf (fun i => (bchEncoder true parity data 24).2.getD i 0) k).getLsbD t
      = lfsrRun 335 (refCoeff 335 refGF24becc) (fun _ => false) (dataBits data)
        (335 - (8 * k + t)) := by
  have hle : 335 - (8 * k + t) ≤ 335 := sub_le _ _
  have htables : ∀ j ≤ 335, wordBit (genGF2 24).2 j = refCoeff 335 refGF24becc j :=
    fun j hj => wordBit_genGF2_24 hj
  rw [getLsbD_parityByte _ _ ht, ← lfsrRun_congr htables (fun _ _ => rfl) (dataBits data) hle]
  exact wordBit_bchEncoder (show (genGF2 24).1 = 335 from rfl)
    (by decide) parity data (by omega) hle (by omega)

lemma parityCorrect_24 (hbits : info.oobMaxBitError = 24)
    (hbytes : info.oobEccBytes = 42) (parity data : List (BitVec 32)) :
    ParityCorrect info data (bchEncoder true parity data info.oobMaxBitError).2 := by
  rw [hbits]
  refine ⟨⟨335, refGF24becc, by rw [hbits]; rfl, ?_⟩, ?_⟩
  · intro k hk t ht
    rw [hbytes] at hk
    rw [getLsbD_parity_24 _ _ hk ht, if_pos (by omega), coeff_remainder _ _ _ (sub_le _ _)]
  intro bchCode c k hk
  rw [hbytes] at hk
  have hcode := codeOf_wmtBchencoder data bchCode
  rw [← hbits, ← hbytes] at hcode
  have hlen : c.bchCodelen = 42 := hcode.codelen (by decide)
  rw [hlen, if_pos hk]
  refine BitVec.eq_of_getLsbD_eq fun t ht => ?_
  rw [getLsbD_parity_24 _ _ hk ht, hcode.bits _ (by omega) t ht, decide_eq_true (by omega),
    getD_bchSera (by decide) _ (by omega)]
  congr 1
  omega

/-- One bit at the end of a word. -/
def impulse : List (BitVec 32) := [0x80000000]

/-- The bit at the end loads the register with the polynomial, so a bit of the polynomial at a wrong
place is enough. -/
theorem not_parityCorrect_impulse {v : Nat} (bits bytes s j : Nat)
    (hbits : info.oobMaxBitError = bits)
    (hbytes : info.oobEccBytes = bytes) (hwidth : (genGF2 bits).1 = w)
    (href : refTable bits = some (v, bchGF2))
    (hplace : w % 32 < 31 ∧ s < 8 * bytes ∧ s < 32 * (w / 32 + 1) ∧ s ≤ v ∧ j ≤ w ∧
      s + j + 8 * (w % 32 / 8) = 32 * (w / 32) + 23)
    (hne : wordBit (genGF2 bits).2 j ≠ refCoeff v bchGF2 (v - s)) : ¬ ∀ parity data,
      ParityCorrect info data (bchEncoder true parity data info.oobMaxBitError).2 := by
  intro hall
  obtain ⟨hw, hlt, hs, hv, hj, hplace⟩ := hplace
  obtain ⟨v', table, htable, hcoeff⟩ := (hall [] impulse).remainder
  rw [hbits, href] at htable
  obtain ⟨rfl, rfl⟩ := htable
  have himpulse : dataBits impulse = replicate 31 false ++ [true] := by decide
  have hbit := hcoeff (s / 8) (by omega) (s % 8) (mod_lt _ (by decide))
  rw [getLsbD_parityByte _ _ (mod_lt _ (by decide)), div_add_mod, if_pos hv,
    coeff_remainder _ _ _ (sub_le _ _), hbits,
    wordBit_bchEncoder hwidth hw [] impulse hs hj hplace, himpulse, lfsrRun_impulse,
      lfsrRun_impulse] at hbit
  exact hne (bitCoeff_inj hbit)

/-- For every engine that `calculate_ECC_info` accepts: the parity bytes of `bch_encoder` are the
remainder in reverse order, for all data, exactly for the engines with the 24-bit code for the
out-of-band bytes. -/
theorem parityCorrect_iff (writesize : Nat) {engine : EccEngine} {info : EccSizeInfo}
    (hinfo : calculateEccInfo writesize engine = some info) : (∀ parity data,
      ParityCorrect info data (bchEncoder true parity data info.oobMaxBitError).2) ↔
    engine = .ecc24bitPer1K ∨ engine = .ecc40bitPer1K := by
  cases engine with
  | ecc24bitPer1K | ecc40bitPer1K =>
    cases hinfo
    exact iff_of_true (parityCorrect_24 rfl rfl) (by decide)
  | ecc1bit =>
    cases hinfo
    refine iff_of_false (not_parityCorrect_impulse 4 8 1 38 rfl rfl rfl rfl ?_ ?_) ?_ <;> decide
  | ecc4bit =>
    cases hinfo
    refine iff_of_false (not_parityCorrect_impulse 8 16 23 96 rfl rfl rfl rfl ?_ ?_) ?_ <;> decide
  | ecc8bit | ecc12bit =>
    cases hinfo
    refine iff_of_false (not_parityCorrect_impulse 12 20 0 127 rfl rfl rfl rfl ?_ ?_) ?_ <;> decide
  | ecc16bit =>
    -- the polynomial is the one of 4 bits
    cases hinfo
    refine iff_of_false (not_parityCorrect_impulse 16 26 0 39 rfl rfl rfl rfl ?_ ?_) ?_ <;> decide
  | ecc44bitPer1K =>
    cases hinfo
    refine iff_of_false (fun h => ?_) (by decide)
    obtain ⟨w, table, htable, -⟩ := (h [] impulse).remainder
    cases htable
  | ecc44bit => cases hinfo

theorem parityCorrect_ecc24bitPer1K :
    ∃ info, calculateEccInfo 8192 .ecc24bitPer1K = some info ∧ info.oobEccBytes = 42 ∧
      ∀ parity data, ParityCorrect info data (bchEncoder true parity data info.oobMaxBitError).2 :=
  ⟨_, rfl, rfl, (parityCorrect_iff 8192 rfl).mpr (.inl rfl)⟩

/-- The code of 4 bits: the first parity byte is `0x0c`, and that of the reference is `0xa2`. -/
theorem not_parityCorrect_ecc1bit :
    calculateEccInfo 8192 .ecc1bit = some (eccSizeInfo 8192 52 4 512 8 .ecc1bit 0) ∧
    bytesOf (fun i => (bchEncoder true [] impulse 4).2.getD i 0) 0 = 0x0c ∧
    (wmtBchencoder (impulse.flatMap leBytes) (fun _ => 0) 4 8).bchCodelen = 7 ∧
    (wmtBchencoder (impulse.flatMap leBytes) (fun _ => 0) 4 8).bchCode 6 = 0xa2 ∧
    ¬ ParityCorrect (eccSizeInfo 8192 52 4 512 8 .ecc1bit 0) impulse
      (bchEncoder true [] impulse 4).2 := by
  have hbyte : bytesOf (fun i => (bchEncoder true [] impulse 4).2.getD i 0) 0 = 0x0c := by
    decide +kernel
  have hlen : (wmtBchencoder (impulse.flatMap leBytes) (fun _ => 0) 4 8).bchCodelen = 7 := by
    decide +kernel
  have hcode : (wmtBchencoder (impulse.flatMap leBytes) (fun _ => 0) 4 8).bchCode 6 = 0xa2 := by
    decide +kernel
  refine ⟨rfl, hbyte, hlen, hcode, fun h => ?_⟩
  have hfirst := h.reference (fun _ => 0) 0 (by decide)
  simp only [eccSizeInfo, hbyte, hlen] at hfirst
  rw [hcode] at hfirst
  exact absurd hfirst (by decide)

end Wm8850.Nand
