import Wm8850.Lib.Word

/-! # The parity of the out-of-band bytes

`bch_encoder` computes the BCH parity of the out-of-band bytes: it keeps the register of the
division in 32-bit words (`Caculat_1b_bch`), reads it back from an address that need not be aligned,
and reverses the bits (`reverse32`). `wmt_bchencoder`, in the source under `#if 0`, is the bitwise
encoder before it and the reference here. `calculate_ECC_info` selects the polynomial and the number
of parity bytes. -/

namespace Wm8850.Nand

open Lib Function List

/-! ### The engines -/

/-- The modes of the ECC engine. -/
inductive EccEngine where
  | ecc1bit
  | ecc4bit
  | ecc8bit
  | ecc12bit
  | ecc16bit
  | ecc24bitPer1K
  | ecc40bitPer1K
  | ecc44bitPer1K
  | ecc44bit
deriving Repr, DecidableEq

/-- The sizes of a mode. -/
structure EccSizeInfo where
  eccBitsCount : Nat
  oobEccBitsCount : Nat
  maxBitError : Nat
  oobMaxBitError : Nat
  banks : Nat
  bankSize : Nat
  bankOffset : Nat
  eccBytes : Nat
  oobEccBytes : Nat
  oobEccMode : EccEngine
  unprotect : Nat
deriving Repr, DecidableEq

/-- A case of `calculate_ECC_info` with one code for the data and the out-of-band bytes. -/
def eccSizeInfo (writesize bitCount maxBitError bankSize byteCount : Nat) (mode : EccEngine)
    (unprotect : Nat) : EccSizeInfo :=
  { eccBitsCount := bitCount, oobEccBitsCount := bitCount
    maxBitError := maxBitError, oobMaxBitError := maxBitError
    banks := writesize / bankSize, bankSize := bankSize
    bankOffset := writesize / (writesize / bankSize) + byteCount
    eccBytes := byteCount, oobEccBytes := byteCount, oobEccMode := mode, unprotect := unprotect }

/-- `calculate_ECC_info`. `none` is the default, where nothing is set. -/
def calculateEccInfo (writesize : Nat) : EccEngine → Option EccSizeInfo
  | .ecc1bit => some (eccSizeInfo writesize 52 4 512 8 .ecc1bit 0)
  | .ecc4bit => some (eccSizeInfo writesize 104 8 512 16 .ecc4bit 50)
  | .ecc8bit => some (eccSizeInfo writesize 156 12 512 20 .ecc8bit 14)
  | .ecc12bit => some (eccSizeInfo writesize 156 12 512 20 .ecc12bit 14)
  | .ecc16bit => some (eccSizeInfo writesize 208 16 512 26 .ecc16bit 26)
  | .ecc24bitPer1K => some (eccSizeInfo writesize 336 24 1024 42 .ecc24bitPer1K 34)
  | .ecc40bitPer1K =>
    -- the out-of-band bytes keep the code of 24 bits
    some
      { eccSizeInfo writesize 560 40 1024 70 .ecc24bitPer1K 14 with
        oobEccBitsCount := 336, oobMaxBitError := 24, oobEccBytes := 42 }
  | .ecc44bitPer1K => some (eccSizeInfo writesize 616 44 1024 77 .ecc44bitPer1K 14)
  | .ecc44bit => none

/-! ### The encoder -/

def reverse32Loop : Nat → BitVec 32 → BitVec 32 → BitVec 32
  | 0, tmp, y => y + (tmp &&& 1)
  | n + 1, tmp, y => reverse32Loop n (tmp >>> 1) ((y + (tmp &&& 1)) <<< 1)

def reverse32 (n : BitVec 32) : BitVec 32 := reverse32Loop 31 n 0

def bchGF40becc : List (BitVec 32) :=
  [ 0xC07F, 0x89B1A0DC, 0x5D96619F, 0x32D04967, 0x54F6DE9D, 0x4F93F527, 0xEF14EFB0, 0xFD539915,
    0xA82CCD92, 0x55288030, 0x477DEE3F, 0x338A59EC, 0x5FA210AF, 0xE2EFDFAE, 0xD244DF31, 0x4DA50762,
    0xB724A002, 0x9CEF2DC1 ]

def bchGF24becc : List (BitVec 32) :=
  [ 0x8E94, 0xE0248D90, 0x9D2B4525, 0x72D1EDD9, 0xD098FE73, 0x0E8E8D26, 0xC2D22893, 0xA3A0485B,
    0xD0AB6E0B, 0x49929A35, 0x6BD430EF ]

def bchGF12becc : List (BitVec 32) := [0xE487325, 0x6115A567, 0x84A6940A, 0x4C6E6D7E, 0x1205E051]

def bchGF8becc : List (BitVec 32) := [0x15, 0xF914E07B, 0x0C138741, 0xC5C4FB23]

def bchGF4becc : List (BitVec 32) := [0x45230, 0x43AB86AB]

/-- The width and the table that `Gen_GF2` selects. There is no case for 16 and 44 bits. -/
def genGF2Table : Nat → Nat × List (BitVec 32)
  | 4 => (51, bchGF4becc)
  | 8 => (103, bchGF8becc)
  | 12 => (155, bchGF12becc)
  | 24 => (335, bchGF24becc)
  | 40 => (559, bchGF40becc)
  | _ => (51, bchGF4becc)

def genGF2 (bits : Nat) : Nat × List (BitVec 32) :=
  let width := (genGF2Table bits).1
  let len := width / 32 + 1
  (width, (range len).map fun i => (genGF2Table bits).2.getD (len - 1 - i) 0)

def caculatLoop (bchGF2 : List (BitVec 32)) (feedback : Bool) :
    Nat → List (BitVec 32) → List (BitVec 32)
  | 0, pariA =>
    pariA.set 0 ((pariA.getD 0 0 <<< 1) ^^^ (if feedback then bchGF2.getD 0 0 else 0))
  | i + 1, pariA =>
    caculatLoop bchGF2 feedback i (pariA.set (i + 1)
      (((pariA.getD (i + 1) 0 <<< 1) + (pariA.getD i 0 >>> 31)) ^^^
        (if feedback then bchGF2.getD (i + 1) 0 else 0)))

def caculat1bBch (pariA bchGF2 : List (BitVec 32)) (din : BitVec 32) (pariLen pariLb : Nat) :
    List (BitVec 32) × BitVec 32 :=
  let mask : BitVec 32 := ~~~(0xffffffff#32 <<< (pariLb + 1))
  let lstdw := mask &&& pariA.getD pariLen 0
  let ldwMSB := lstdw >>> pariLb
  (caculatLoop bchGF2 (din ^^^ ldwMSB != 0) pariLen pariA, ldwMSB)

def encodeWord (bchGF2 : List (BitVec 32)) (pariLen pariLb : Nat) :
    Nat → BitVec 32 → List (BitVec 32) → List (BitVec 32)
  | 0, _, p1 => p1
  | n + 1, tmp, p1 =>
    encodeWord bchGF2 pariLen pariLb n (tmp >>> 1)
      (caculat1bBch p1 bchGF2 (tmp &&& 0x00000001) pariLen pariLb).1

/-- `bch_encoder`: its result and the words of `p_parity`. `kmalloc` can fail. -/
def bchEncoder (kmalloc : Bool) (pParity pData : List (BitVec 32)) (bits : Nat) :
    Int × List (BitVec 32) :=
  if kmalloc then
    let bchGFmsb := (genGF2 bits).1
    let bchGF2 := (genGF2 bits).2
    let pariLen := bchGFmsb / 32
    let pariLb := bchGFmsb % 32
    let p1 := pData.foldl (fun p1 tmp => encodeWord bchGF2 pariLen pariLb 32 tmp p1)
      (replicate (pariLen + 1) 0)
    -- `p1` is `&p[1]`, and `p[0]` is 0
    let p2 := bytesOf fun k => (0 :: p1).getD k 0
    let words := (range (pariLen + 1)).map fun k =>
      reverse32 (loadWord p2 (3 - pariLb / 8 + 4 * (pariLen - k)))
    (0, words ++ pParity.drop (pariLen + 1))
  else (-1, pParity)

/-! ### The reference -/

/-- `bch_GF_4becc` of `wmt_bchencoder`, the rest of it is 0. -/
def refGF4becc : List Nat :=
  [ 0,1,0,0,0,1,0,1,0,0,1,0,0,0,1,1,0,0,0,0,0,1,0,0,0,0,1,1,1,0,1,0,1,0,1,1,1,0,0,0,0,1,1,0,1,0,1,0,
    1,0,1,1 ]

def refGF8becc : List Nat :=
  [ 0,0,0,1,0,1,0,1,1,1,1,1,1,0,0,1,0,0,0,1,0,1,0,0,1,1,1,0,0,0,0,0,0,1,1,1,1,0,1,1,0,0,0,0,1,1,0,0,
    0,0,0,1,0,0,1,1,1,0,0,0,0,1,1,1,0,1,0,0,0,0,0,1,1,1,0,0,0,1,0,1,1,1,0,0,0,1,0,0,1,1,1,1,1,0,1,1,
    0,0,1,0,0,0,1,1 ]

def refGF12becc : List Nat :=
  [ 1,1,1,0,0,1,0,0,1,0,0,0,0,1,1,1,0,0,1,1,0,0,1,0,0,1,0,1,0,1,1,0,0,0,0,1,0,0,0,1,0,1,0,1,1,0,1,0,
    0,1,0,1,0,1,1,0,0,1,1,1,1,0,0,0,0,1,0,0,1,0,1,0,0,1,1,0,1,0,0,1,0,1,0,0,0,0,0,0,1,0,1,0,0,1,0,0,
    1,1,0,0,0,1,1,0,1,1,1,0,0,1,1,0,1,1,0,1,0,1,1,1,1,1,1,0,0,0,0,1,0,0,1,0,0,0,0,0,0,1,0,1,1,1,1,0,
    0,0,0,0,0,1,0,1,0,0,0,1 ]

def refGF16becc : List Nat :=
  [ 1,1,0,0,1,0,1,1,1,0,1,1,1,1,1,0,0,0,1,1,1,1,1,1,0,0,0,0,1,1,0,1,1,0,1,1,1,1,1,0,1,1,0,0,0,1,0,1,
    0,1,1,0,0,0,1,1,1,0,1,1,0,1,0,1,1,1,1,1,1,0,1,1,0,0,1,0,0,0,0,0,1,1,1,1,1,1,1,1,0,0,0,0,0,1,1,1,
    1,1,1,1,0,1,1,1,1,0,1,0,1,0,1,0,0,1,0,0,0,1,0,1,1,1,1,1,1,1,1,1,0,0,0,0,0,0,1,0,0,1,1,0,1,1,1,1,
    1,0,1,1,0,0,1,1,0,1,1,1,1,0,0,0,1,0,1,0,0,1,1,0,0,0,0,0,0,0,0,1,1,1,0,0,1,1,0,1,1,1,0,1,0,0,0,0,
    1,1,1,1,1,1,0,1,1,1,0,1,0,0,0,1 ]

def refGF24becc : List Nat :=
  [ 1,0,0,0,1,1,1,0,1,0,0,1,0,1,0,0,1,1,1,0,0,0,0,0,0,0,1,0,0,1,0,0,1,0,0,0,1,1,0,1,1,0,0,1,0,0,0,0,
    1,0,0,1,1,1,0,1,0,0,1,0,1,0,1,1,0,1,0,0,0,1,0,1,0,0,1,0,0,1,0,1,0,1,1,1,0,0,1,0,1,1,0,1,0,0,0,1,
    1,1,1,0,1,1,0,1,1,1,0,1,1,0,0,1,1,1,0,1,0,0,0,0,1,0,0,1,1,0,0,0,1,1,1,1,1,1,1,0,0,1,1,1,0,0,1,1,
    0,0,0,0,1,1,1,0,1,0,0,0,1,1,1,0,1,0,0,0,1,1,0,1,0,0,1,0,0,1,1,0,1,1,0,0,0,0,1,0,1,1,0,1,0,0,1,0,
    0,0,1,0,1,0,0,0,1,0,0,1,0,0,1,1,1,0,1,0,0,0,1,1,1,0,1,0,0,0,0,0,0,1,0,0,1,0,0,0,0,1,0,1,1,0,1,1,
    1,1,0,1,0,0,0,0,1,0,1,0,1,0,1,1,0,1,1,0,1,1,1,0,0,0,0,0,1,0,1,1,0,1,0,0,1,0,0,1,1,0,0,1,0,0,1,0,
    1,0,0,1,1,0,1,0,0,0,1,1,0,1,0,1,0,1,1,0,1,0,1,1,1,1,0,1,0,1,0,0,0,0,1,1,0,0,0,0,1,1,1,0,1,1,1,
    1]

def refGF40becc : List Nat :=
  [ 1,1,0,0,0,0,0,0,0,1,1,1,1,1,1,1,1,0,0,0,1,0,0,1,1,0,1,1,0,0,0,1,1,0,1,0,0,0,0,0,1,1,0,1,1,1,0,0,
    0,1,0,1,1,1,0,1,1,0,0,1,0,1,1,0,0,1,1,0,0,0,0,1,1,0,0,1,1,1,1,1,0,0,1,1,0,0,1,0,1,1,0,1,0,0,0,0,
    0,1,0,0,1,0,0,1,0,1,1,0,0,1,1,1,0,1,0,1,0,1,0,0,1,1,1,1,0,1,1,0,1,1,0,1,1,1,1,0,1,0,0,1,1,1,0,1,
    0,1,0,0,1,1,1,1,1,0,0,1,0,0,1,1,1,1,1,1,0,1,0,1,0,0,1,0,0,1,1,1,1,1,1,0,1,1,1,1,0,0,0,1,0,1,0,0,
    1,1,1,0,1,1,1,1,1,0,1,1,0,0,0,0,1,1,1,1,1,1,0,1,0,1,0,1,0,0,1,1,1,0,0,1,1,0,0,1,0,0,0,1,0,1,0,1,
    1,0,1,0,1,0,0,0,0,0,1,0,1,1,0,0,1,1,0,0,1,1,0,1,1,0,0,1,0,0,1,0,0,1,0,1,0,1,0,1,0,0,1,0,1,0,0,0,
    1,0,0,0,0,0,0,0,0,0,1,1,0,0,0,0,0,1,0,0,0,1,1,1,0,1,1,1,1,1,0,1,1,1,1,0,1,1,1,0,0,0,1,1,1,1,1,1,
    0,0,1,1,0,0,1,1,1,0,0,0,1,0,1,0,0,1,0,1,1,0,0,1,1,1,1,0,1,1,0,0,0,1,0,1,1,1,1,1,1,0,1,0,0,0,1,0,
    0,0,0,1,0,0,0,0,1,0,1,0,1,1,1,1,1,1,1,0,0,0,1,0,1,1,1,0,1,1,1,1,1,1,0,1,1,1,1,1,1,0,1,0,1,1,1,0,
    1,1,0,1,0,0,1,0,0,1,0,0,0,1,0,0,1,1,0,1,1,1,1,1,0,0,1,1,0,0,0,1,0,1,0,0,1,1,0,1,1,0,1,0,0,1,0,1,
    0,0,0,0,0,1,1,1,0,1,1,0,0,0,1,0,1,0,1,1,0,1,1,1,0,0,1,0,0,1,0,0,1,0,1,0,0,0,0,0,0,0,0,0,0,0,1,0,
    1,0,0,1,1,1,0,0,1,1,1,0,1,1,1,1,0,0,1,0,1,1,0,1,1,1,0,0,0,0,0,1 ]

def refTable : Nat → Option (Nat × List Nat)
  | 4 => some (51, refGF4becc)
  | 8 => some (103, refGF8becc)
  | 12 => some (155, refGF12becc)
  | 16 => some (207, refGF16becc)
  | 24 => some (335, refGF24becc)
  | 40 => some (559, refGF40becc)
  | _ => none

/-- One bit of the data in `wmt_bchencoder`: the places 0 to `width` of `bch_sera`, where the bytes
0 and 1 are `Bool`. -/
def bchSeraStep (width : Nat) (bchGF2 : List Nat) (bchSera : List Bool) (bchI : Bool) : List Bool :=
  let bchSeraBack := bchSera.getD width false ^^ bchI
  (range (width + 1)).map fun i =>
    if i = 0 then bchSeraBack
    else bchSera.getD (i - 1) false ^^ (bchSeraBack && bchGF2.getD (width - i) 0 == 1)

structure BchCode where
  i : Nat
  bchCode : Nat → BitVec 8
  bchCodelen : Nat
  retval : Nat

def bchCodeLoop (bchSera : List Bool) (offset bchCodelenIn : Nat) : Nat → Nat → BchCode → BchCode
  | 0, _, c => c
  | n + 1, j, c =>
    let bit : BitVec 8 := if bchSera.getD j false then 1 <<< (7 - (j + offset) % 8) else 0
    let c := { c with
      bchCodelen := c.i + 1, bchCode := update c.bchCode c.i (c.bchCode c.i + bit) }
    if c.i ≥ bchCodelenIn then { c with retval := c.retval + 2 }
    else if (j + offset) % 8 = 7 then
      bchCodeLoop bchSera offset bchCodelenIn n (j + 1)
        { c with i := c.i + 1, bchCode := update c.bchCode (c.i + 1) 0 }
    else bchCodeLoop bchSera offset bchCodelenIn n (j + 1) c

/-- The parity of the data, by a shift register. -/
def wmtBchencoder (data : List (BitVec 8)) (bchCode : Nat → BitVec 8) (bits bchCodelen : Nat) :
    BchCode :=
  let bData := data.flatMap fun byte => (range 8).map byte.getLsbD
  let retval := if (refTable bits).isSome then 0 else 1
  let width := ((refTable bits).getD (51, refGF4becc)).1
  let bchGF2 := ((refTable bits).getD (51, refGF4becc)).2
  let bchSera := bData.foldl (bchSeraStep width bchGF2) (replicate (width + 1) false)
  let offset := if bits = 4 ∨ bits = 12 then 4 else 0
  bchCodeLoop bchSera offset bchCodelen (width + 1) 0
    { i := 0, bchCode := update bchCode 0 0, bchCodelen := bchCodelen, retval := retval }

end Wm8850.Nand
