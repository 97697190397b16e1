import Mathlib.Algebra.Order.Ring.Int
import Mathlib.Data.List.Basic

/-! # Machine words and bytes in memory

A machine word is a `Nat`: `wadd` and `wsub` reduce modulo `2 ^ 32`. An `int` is an `Int`, and
`wrapInt` brings a result back into its range. A buffer is the memory from an address on. `xorKeys`
and `copyKeys` are the loops of a stream cipher, in place and from a source to a destination. -/

namespace Wm8850.Lib

open Nat

/-- The number of words. -/
def wordSize : Nat := 2 ^ 32

def wadd (a b : Nat) : Nat := (a + b) % wordSize

/-- A negative difference comes out as a large word. -/
def wsub (a b : Nat) : Nat := (wordSize - b % wordSize + a) % wordSize

lemma wadd_of_lt {a b : Nat} (h : a + b < wordSize) : wadd a b = a + b := by
  exact mod_eq_of_lt h

lemma wsub_of_le {a b : Nat} (hba : b ≤ a) (ha : a < wordSize) : wsub a b = a - b := by
  have hb : b % wordSize = b := mod_eq_of_lt (by omega)
  unfold wsub
  rw [hb, show wordSize - b + a = (a - b) + wordSize by omega, add_mod_right]
  exact mod_eq_of_lt (by omega)

lemma wadd_wadd (a b c : Nat) : wadd (wadd a b) c = wadd a (b + c) := by
  unfold wadd
  rw [mod_add_mod, Nat.add_assoc]

lemma wsub_wadd_wadd {a b c : Nat} (hcb : c ≤ b) (hb : b < wordSize) :
    wsub (wadd a b) (wadd a c) = b - c := by
  unfold wsub wadd wordSize at *
  omega

/-- An `int` after an operation that may leave the range. The machine keeps the low 32 bits. -/
def wrapInt (x : Int) : Int := x.bmod wordSize

lemma wrapInt_of_mem {x : Int} (hlo : -2 ^ 31 ≤ x) (hhi : x < 2 ^ 31) : wrapInt x = x := by
  unfold wrapInt wordSize
  exact Int.bmod_eq_of_le (by omega) (by omega)

/-- A memory of bytes. -/
abbrev Bytes := Nat → BitVec 8

/-- The bytes of a word, the lowest first. -/
def leBytes (w : BitVec 32) : List (BitVec 8) :=
  [w.extractLsb' 0 8, w.extractLsb' 8 8, w.extractLsb' 16 8, w.extractLsb' 24 8]

/-- The bytes of an array of words. -/
def bytesOf (words : Nat → BitVec 32) : Bytes := fun k =>
  (words (k / 4)).extractLsb' (8 * (k % 4)) 8

def loadWord (m : Bytes) (p : Nat) : BitVec 32 := m (p + 3) ++ m (p + 2) ++ m (p + 1) ++ m p

def memcpy (dst src : Bytes) (n : Nat) : Bytes := fun p => if p < n then src p else dst p

/-- `*buf++ ^= *key++` for all keys. -/
def xorKeys (ks : List (BitVec 8)) (buf : Bytes) : Bytes := fun p => buf p ^^^ ks.getD p 0

/-- `*dst++ = *src++ ^ *key++` for all keys. -/
def copyKeys (ks : List (BitVec 8)) (src dst : Bytes) : Bytes := fun p =>
  if p < ks.length then src p ^^^ ks.getD p 0 else dst p

end Wm8850.Lib
