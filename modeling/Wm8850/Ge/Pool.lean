import Wm8850.Lib.Reach
import Wm8850.Lib.Word

/-! # The memory pool of the graphics engine

The pool of `com-ge.c` has a descriptor for each 64 KB, in an array in its first block. The
descriptor of the first unit of a block describes the block.

A pointer to a descriptor is its index. The functions give `none` where the code would read outside
the array, follow `NULL` or not come to an end; the walks take the number of descriptors as fuel.
`used` and `tail` hold `0` and `1` only. A `char` is unsigned. -/

namespace Wm8850.Ge

open Lib

def EFAULT : Int := 14
def EINVAL : Int := 22

/-- The smallest block, 64 KB. -/
def unitSize : Nat := 2 ^ 16

def gmpTagDefault : Nat := 0x30303030

def gmpTagUmp : Nat := 0x20706d75

def umpInvalidSecureId : Nat := 0xffffffff

/-- A `struct gmdesc`, which describes a block of `2 ^ order` units. -/
structure Gmdesc where
  pa : Nat
  order : Nat
  used : Bool
  tag : Nat
  owner : Int
  tail : Bool
  secureId : Nat
deriving Repr, DecidableEq

def sizeofGmdesc : Nat := 28

def gmpNr (p : Gmdesc) : Nat := 2 ^ p.order

def gmpSize (p : Gmdesc) : Nat := gmpNr p * unitSize

/-- The pool, with an array of descriptors of which only the first of a block counts. -/
structure Gmp where
  gmdesc : List Gmdesc
  pa : Nat
  len : Nat
  cached : Option Nat
deriving Repr, DecidableEq

def Gmp.nr (g : Gmp) : Nat := g.len / unitSize

def Gmp.set (g : Gmp) (i : Nat) (p : Gmdesc) : Gmp := { g with gmdesc := g.gmdesc.set i p }

/-! ### Sizes and tags -/

/-- The loop `while (val) { val >>= 1; order++; }`. A 32-bit value needs 32 turns at most. -/
def orderLoop : Nat → Nat → Nat
  | 0, _ => 0
  | turns + 1, val => if val = 0 then 0 else orderLoop turns (val / 2) + 1

/-- The order of the smallest block for a size. -/
def gmpGetOrder (val : Nat) : Nat :=
  if val = 0 then 0 else orderLoop 32 ((val - 1) / unitSize)

def octet (value k : Nat) : Nat := value / 256 ^ k % 256

def gmpCtag (a b c d : Nat) : Nat := a + 256 * (b + 256 * (c + 256 * d))

def gmpItag (value : Nat) : Nat :=
  if octet value 0 ≥ 0x20 then value
  else
    let digit := fun c => if c < 0x30 then c + 0x30 else c
    gmpCtag (digit (octet value 3)) (digit (octet value 2)) (digit (octet value 1))
      (digit (octet value 0))

/-! ### Walking over the blocks -/

/-- `next_gmdesc`. The inner `none` is `NULL`. -/
def nextGmdesc (g : Gmp) (i : Nat) : Option (Option Nat) := do
  let p ← g.gmdesc[i]?
  return if p.tail then none else some (i + gmpNr p)

def prevWalk (g : Gmp) (i : Nat) : Nat → Nat → Nat → Option Nat
  | 0, _, _ => none
  | fuel + 1, p, next =>
    if next = i then some p
    else
      match nextGmdesc g next with
      | some (some q) => prevWalk g i fuel next q
      -- `next_gmdesc` follows `NULL` in the next turn
      | _ => none

def prevGmdesc (g : Gmp) (i : Nat) : Option (Option Nat) :=
  if i = 0 then some none
  else (prevWalk g i (g.gmdesc.length + 1) 0 0).map some

/-- The blocks that a loop `while (p) { .. p = next_gmdesc(gmp, p); }` visits. -/
def visitsFrom (g : Gmp) : Nat → Nat → Option (List Gmdesc)
  | 0, _ => none
  | fuel + 1, i => do
    let p ← g.gmdesc[i]?
    match ← nextGmdesc g i with
    | none => return [p]
    | some q => return p :: (← visitsFrom g fuel q)

/-- The blocks that a walk over the pool visits. -/
def Gmp.visits (g : Gmp) : Option (List Gmdesc) := visitsFrom g g.gmdesc.length 0

/-- The inner `none` is `NULL`, after a walk over all blocks. -/
def findGmdesc (g : Gmp) (test : Gmdesc → Bool) : Nat → Nat → Option (Option Nat)
  | 0, _ => none
  | fuel + 1, i => do
    let p ← g.gmdesc[i]?
    if test p then return some i
    else
      match ← nextGmdesc g i with
      | none => return none
      | some q => findGmdesc g test fuel q

/-! ### Splitting and merging -/

def gmpSplit (g : Gmp) (i : Nat) : Option (Gmp × Int) := do
  let p ← g.gmdesc[i]?
  if p.order = 0 then return (g, -EINVAL)
  else
    let p := { p with order := p.order - 1 }
    let g := g.set i p
    let j := i + gmpNr p
    let newdesc ← g.gmdesc[j]?
    if newdesc.pa ≠ wadd p.pa (gmpSize p) then return (g, -EFAULT)
    else
      let g := g.set j
        { newdesc with
          order := p.order, used := p.used, tag := gmpTagDefault, tail := p.tail
          secureId := umpInvalidSecureId }
      return (g.set i { p with tail := false }, 0)

def unaligned (p first : Gmdesc) : Bool :=
  wsub p.pa first.pa / (2 ^ p.order * unitSize) % 2 = 1

/-- The loop `while (f() == 0);`. -/
def whileZero (f : Gmp → Option (Gmp × Int)) : Nat → Gmp → Option Gmp
  | 0, _ => none
  | fuel + 1, g => do
    let (g, ret) ← f g
    if ret = 0 then whileZero f fuel g else return g

def gmpMerge : Nat → Gmp → Nat → Option (Gmp × Int)
  | 0, _, _ => none
  | fuel + 1, g, i => do
    let first ← g.gmdesc[0]?
    let d ← g.gmdesc[i]?
    if d.used || unaligned d first then return (g, -EINVAL)
    else
      match ← nextGmdesc g i with
      | none => return (g, -EINVAL)
      | some j =>
        let p ← g.gmdesc[j]?
        if p.used then return (g, -EINVAL)
        else
          let (g, _) ← gmpMerge fuel g j
          let p ← g.gmdesc[j]?
          let d ← g.gmdesc[i]?
          if p.order = d.order then
            let g := g.set i { d with order := d.order + 1, tail := p.tail }
            let g := g.set j { p with tail := false }
            let g ← whileZero (fun g => gmpMerge fuel g i) fuel g
            return (g, 0)
          else return (g, -EINVAL)

def mergeForward : Nat → Gmp → Nat → Option Gmp
  | 0, _, _ => none
  | fuel + 1, g, i => do
    let (g, _) ← gmpMerge g.gmdesc.length g i
    match ← nextGmdesc g i with
    | none => return g
    | some q => mergeForward fuel g q

def mergeBackward : Nat → Gmp → Nat → Option Gmp
  | 0, _, _ => none
  | fuel + 1, g, i => do
    let (g, _) ← gmpMerge g.gmdesc.length g i
    match ← prevGmdesc g i with
    | none => return g
    | some q => mergeBackward fuel g q

/-! ### The calls -/

/-- The loop `while (p->order > order) gmp_split(gmp, p);`. The code drops the answers. -/
def splitLoop (order i : Nat) : Nat → Gmp → Option (Gmp × List Int)
  | 0, g => some (g, [])
  | turns + 1, g => do
    let p ← g.gmdesc[i]?
    if p.order > order then
      let (g, ret) ← gmpSplit g i
      let (g, rets) ← splitLoop order i turns g
      return (g, ret :: rets)
    else return (g, [])

/-- The result of an allocation. -/
structure Alloc where
  gmp : Gmp
  ret : Nat
  splits : List Int
deriving Repr, DecidableEq

/-- `mali` is `none` when `mali_get_ump_secure_id` is `NULL`. -/
def Gmdesc.claim (tag : Nat) (pid : Int) (mali : Option Nat) (p : Gmdesc) : Gmdesc :=
  { p with
    used := true
    tag := if tag = gmpTagUmp then tag else gmpItag tag
    secureId := if tag = gmpTagUmp then mali.getD umpInvalidSecureId else umpInvalidSecureId
    owner := pid }

/-- The first free block that is large enough, after it is halved. -/
def gmpAlloc (g : Gmp) (size tag : Nat) (pid : Int) (mali : Option Nat) : Option Alloc := do
  let order := gmpGetOrder size
  match ← findGmdesc g (fun p => !p.used && decide (p.order ≥ order)) g.gmdesc.length 0 with
  | none => return { gmp := { g with cached := none }, ret := 0, splits := [] }
  | some i =>
    let p ← g.gmdesc[i]?
    let (g, splits) ← splitLoop order i p.order g
    let g := { g with cached := some i }
    let p ← g.gmdesc[i]?
    if p.used then return { gmp := g, ret := 0, splits := splits }
    else return { gmp := g.set i (p.claim tag pid mali), ret := p.pa, splits := splits }

def Gmdesc.release (p : Gmdesc) : Gmdesc :=
  { p with used := false, tag := gmpTagDefault, owner := 0, secureId := umpInvalidSecureId }

/-- The cached descriptor when it has the address, otherwise the first block with it. -/
def freeTarget (g : Gmp) (pa : Nat) : Option (Option Nat) :=
  let walk := findGmdesc g (fun p => p.pa = pa) g.gmdesc.length 0
  match g.cached with
  | none => walk
  | some c => do
    let p ← g.gmdesc[c]?
    if p.pa ≠ pa then walk else return some c

/-- Frees the block at an address, and merges. -/
def gmpFree (g : Gmp) (pa : Nat) : Option Gmp := do
  match ← freeTarget g pa with
  | none => mergeForward g.gmdesc.length g 0
  | some i =>
    let p ← g.gmdesc[i]?
    mergeForward g.gmdesc.length (g.set i p.release) 0

def releaseOwned (pid : Int) : Nat → Gmp → Nat → Option Gmp
  | 0, _, _ => none
  | fuel + 1, g, i => do
    let p ← g.gmdesc[i]?
    let g := if p.owner = pid then g.set i p.release else g
    match ← nextGmdesc g i with
    | none => return g
    | some q => releaseOwned pid fuel g q

/-- Frees all blocks of a process. -/
def gmpInvalidate (g : Gmp) (pid : Int) : Option Gmp := do
  let g ← releaseOwned pid g.gmdesc.length g 0
  mergeForward g.gmdesc.length g 0

def initGmdesc : Nat → Nat → List Gmdesc
  | 0, _ => []
  | nr + 1, addr =>
    { pa := addr, order := 0, used := false, tag := gmpTagDefault, owner := 0
      -- `p->tail = 1` for the last one
      tail := decide (nr = 0)
      secureId := umpInvalidSecureId } :: initGmdesc nr (wadd addr unitSize)

/-- The pool in the largest blocks, the first of which holds the descriptors. -/
def gmpReset (g : Gmp) (pid : Int) : Option Gmp := do
  if g.nr = 0 then return g
  else
    let g := { g with gmdesc := initGmdesc g.nr g.pa }
    let g ← mergeBackward g.nr g (g.nr - 1)
    let r ← gmpAlloc g (sizeofGmdesc * g.nr) (gmpCtag 0x67 0x6d 0x70 0x20) pid none
    let first ← r.gmp.gmdesc[0]?
    return r.gmp.set 0 { first with owner := -1 }

/-! ### The secure ids of UMP -/

def gmpGetSecureId (g : Gmp) (pa : Nat) : Option Nat := do
  match ← freeTarget g pa with
  | none => return umpInvalidSecureId
  | some i => return (← g.gmdesc[i]?).secureId

def gmpGetAddrFromSecureId (g : Gmp) (secureId : Nat) : Option Nat := do
  let walk := do
    match ← findGmdesc g (fun p => p.secureId = secureId) g.gmdesc.length 0 with
    | none => return 0
    | some i => return (← g.gmdesc[i]?).pa
  match g.cached with
  | none => walk
  | some c =>
    let p ← g.gmdesc[c]?
    if p.secureId = secureId then return p.pa else walk

/-! ### Runs after `gmp_reset` -/

/-- The calls on the pool. -/
inductive Call where
  | alloc (size tag : Nat) (pid : Int) (mali : Option Nat)
  | free (pa : Nat)
  | invalidate (pid : Int)
deriving Repr, DecidableEq

def Call.exec (g : Gmp) : Call → Option (Gmp × List Int)
  | .alloc size tag pid mali => (gmpAlloc g size tag pid mali).map fun r => (r.gmp, r.splits)
  | .free pa => (gmpFree g pa).map fun g => (g, [])
  | .invalidate pid => (gmpInvalidate g pid).map fun g => (g, [])

/-- The pool before its reset. -/
def rawPool (pa nr : Nat) (mem : List Gmdesc) (cached : Option Nat) : Gmp :=
  { gmdesc := mem, pa := pa, len := nr * unitSize, cached := cached }

def Started (pa nr : Nat) (g : Gmp) : Prop :=
  ∃ mem cached pid, mem.length = nr ∧ gmpReset (rawPool pa nr mem cached) pid = some g

def PoolStep (c : Call) (g g' : Gmp) : Prop := (c.exec g).map Prod.fst = some g'

/-- The pools after calls of the driver. -/
abbrev Reachable (pa nr : Nat) : Gmp → Prop := Reach (Started pa nr) PoolStep

end Wm8850.Ge
