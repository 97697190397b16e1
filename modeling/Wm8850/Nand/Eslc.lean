import Wm8850.Lib.Search
import Wm8850.Lib.Word

/-! # Logical and physical pages of the NAND driver

In the enhanced SLC mode only the pages in `eslc_map_table` are used. With `whole_eslc` the chip
`0xADD794DA` uses half of each block. Otherwise the first four partitions of a Hynix chip do, with
two good blocks in place of one: `eslcPartPage` skips bad blocks.

The translation stands in `wmt_nand_cmdfunc`, `wmt_nand_read_page` and `wmt_nand_write_page`, each
time behind other conditions; `single_erase_cmd` is from `nand_base.c`. One id stands for `nand_id`
and `mtd->id`. `none` is a division by zero or a read behind `eslc_map_table`. No page leaves the
range of `int`. -/

namespace Wm8850.Nand

open Lib

def eslcMapTable : List Nat :=
  [ 0x0, 0x1, 0x2, 0x3, 0x6, 0x7, 0xa, 0xb, 0xe, 0xf, 0x12, 0x13,
    0x16, 0x17, 0x1a, 0x1b, 0x1e, 0x1f, 0x22, 0x23, 0x26, 0x27, 0x2a, 0x2b,
    0x2e, 0x2f, 0x32, 0x33, 0x36, 0x37, 0x3a, 0x3b, 0x3e, 0x3f, 0x42, 0x43,
    0x46, 0x47, 0x4a, 0x4b, 0x4e, 0x4f, 0x52, 0x53, 0x56, 0x57, 0x5a, 0x5b,
    0x5e, 0x5f, 0x62, 0x63, 0x66, 0x67, 0x6a, 0x6b, 0x6e, 0x6f, 0x72, 0x73,
    0x76, 0x77, 0x7a, 0x7b, 0x7e, 0x7f, 0x82, 0x83, 0x86, 0x87, 0x8a, 0x8b,
    0x8e, 0x8f, 0x92, 0x93, 0x96, 0x97, 0x9a, 0x9b, 0x9e, 0x9f, 0xa2, 0xa3,
    0xa6, 0xa7, 0xaa, 0xab, 0xae, 0xaf, 0xb2, 0xb3, 0xb6, 0xb7, 0xba, 0xbb,
    0xbe, 0xbf, 0xc2, 0xc3, 0xc6, 0xc7, 0xca, 0xcb, 0xce, 0xcf, 0xd2, 0xd3,
    0xd6, 0xd7, 0xda, 0xdb, 0xde, 0xdf, 0xe2, 0xe3, 0xe6, 0xe7, 0xea, 0xeb,
    0xee, 0xef, 0xf2, 0xf3, 0xf6, 0xf7, 0xfa, 0xfb]

/-- The chip and its partitions. -/
structure Chip where
  id : Nat
  curChip : Bool
  /-- `log2(mtd->erasesize)` -/
  physEraseShift : Nat
  /-- `log2(mtd->writesize)` -/
  pageShift : Nat
  blkcnt : Nat
  bbt : Option (Nat → Nat)
  par1Ofs : Nat
  par2Ofs : Nat
  par3Ofs : Nat
  par4Ofs : Nat
  wholeEslc : Nat
  probEnd : Nat
  eslcWrite : Nat

/-- The pages of a block. -/
def Chip.pagecnt (c : Chip) : Nat := 2 ^ c.physEraseShift / 2 ^ c.pageShift

def Chip.blkPageShift (c : Chip) : Nat := c.physEraseShift - c.pageShift

def wmtIsbadBbt (c : Chip) (block : Nat) : Nat :=
  match c.bbt with
  | none => 1
  | some bbt =>
    let block := block <<< 1
    let res := (bbt (block >>> 3) >>> (block &&& 0x06)) &&& 0x03
    match res with
    | 0x00 => 0
    | 0x01 => 1
    | 0x02 => 1
    | _ => 1

/-- The page that is addressed. -/
inductive Target where
  | page (page : Nat)
  /-- out of partition size -/
  | skip
deriving Repr, DecidableEq

/-- The partition of a page. -/
def Chip.basePages (c : Chip) (page : Nat) : Nat × Nat :=
  if page < c.par1Ofs then (0, c.par1Ofs)
  else if page < c.par2Ofs then (c.par1Ofs, c.par2Ofs)
  else if page < c.par3Ofs then (c.par2Ofs, c.par3Ofs)
  else (c.par3Ofs, c.par4Ofs)

/-- The translation of a page below `par4_ofs`. -/
def eslcPartPage (c : Chip) (page : Nat) : Option Target :=
  if c.pagecnt / 2 = 0 then none
  else
    let eslcpageMod := page % c.pagecnt
    let eslcpageBase := page - eslcpageMod
    let basePage := (c.basePages page).1
    let basePageEnd := (c.basePages page).2
    let eslcblkBase := eslcpageBase >>> c.blkPageShift
    let baseBlk := basePage >>> c.blkPageShift
    let baseBlkEnd := basePageEnd >>> c.blkPageShift
    -- the difference is an `int`, and negative in a block that the partition shares
    let blkOfs := ((((eslcpageBase : Int) - basePage) >>> c.blkPageShift) % wordSize).toNat
    let badBlk := countLoop (fun j => ¬ wmtIsbadBbt c j = 0) (eslcblkBase - baseBlk) baseBlk 0
    let blkOfs := wsub blkOfs badBlk
    let blkOfs := wadd (blkOfs * 2) (if eslcpageMod ≥ c.pagecnt / 2 then 1 else 0)
    let i := reachLoop (fun i => wmtIsbadBbt c i = 0) (wadd blkOfs 1)
      (baseBlkEnd - baseBlk) baseBlk 0
    if i ≥ baseBlkEnd then some .skip
    else (eslcMapTable[eslcpageMod % (c.pagecnt / 2)]?).map fun e =>
      .page (i <<< c.blkPageShift + e)

def eslcWholePage (c : Chip) (page : Nat) : Option Target :=
  if c.pagecnt = 0 then none
  else
    let eslcpageMod := page % c.pagecnt
    let eslcpageBase := (page - eslcpageMod) <<< 1
    if c.probEnd = 0 ∧ eslcpageMod = c.pagecnt - 1 then
      some (.page (eslcpageBase + eslcpageMod * 2 + 1))
    else (eslcMapTable[eslcpageMod]?).map fun e => .page (eslcpageBase + e)

def nandMfrHynix : Nat := 0xad

def Chip.Whole (c : Chip) : Prop := c.curChip = true ∧ c.id = 0xADD794DA ∧ c.wholeEslc = 1

/-- A chip of which only the partitions are in the enhanced mode. -/
def Chip.Hynix (c : Chip) : Prop :=
  c.curChip = true ∧ c.id >>> 24 = nandMfrHynix ∧ c.wholeEslc ≠ 1

instance (c : Chip) : Decidable c.Whole := inferInstanceAs (Decidable (_ ∧ _))

instance (c : Chip) : Decidable c.Hynix := inferInstanceAs (Decidable (_ ∧ _))

inductive Command where
  | read0
  | seqin
  | erase1
deriving Repr, DecidableEq

/-- The page that `wmt_nand_cmdfunc` puts on the bus. With `skip` it returns before that. -/
def wmtNandCmdfunc (c : Chip) (command : Command) (pageAddr : Nat) : Option Target :=
  if c.id = 0xECDED57A then
    if pageAddr ≥ 4096 * 128 then some (.page (pageAddr + 0x80000)) else some (.page pageAddr)
  else if c.Whole ∧ command ≠ .seqin then eslcWholePage c pageAddr
  else if command = .read0 ∧ c.probEnd = 1 ∧ c.Hynix then
    if pageAddr < c.par4Ofs then eslcPartPage c pageAddr else some (.page pageAddr)
  else some (.page pageAddr)

/-- The page that `wmt_nand_read_page` descrambles with. With `skip` it returns `-1`. -/
def wmtNandReadPage (c : Chip) (page : Nat) : Option Target :=
  if c.Whole then eslcWholePage c page
  else if c.probEnd = 1 ∧ c.Hynix then
    if page < c.par4Ofs then eslcPartPage c page else some (.page page)
  else some (.page page)

inductive EslcMode where
  | eccErrorValue
  | defaultValue
deriving Repr, DecidableEq

/-- What `wmt_nand_write_page` decides. -/
structure WritePage where
  target : Target
  erase : Option Nat
  setParameter : Option EslcMode
  eslcWrite : Nat
deriving Repr, DecidableEq

/-- The page that is written, and whether the mode changes. -/
def wmtNandWritePage (c : Chip) (page : Nat) : Option WritePage :=
  let stay (t : Target) : WritePage :=
    { target := t, erase := none, setParameter := none, eslcWrite := c.eslcWrite }
  let enable (t : Target) (erase : Option Nat) : WritePage :=
    if c.eslcWrite ≠ 2 then
      { target := t, erase := erase, setParameter := some .eccErrorValue, eslcWrite := 2 }
    else { stay t with erase := erase }
  if c.Whole then (eslcWholePage c page).map stay
  else if c.Hynix then
    if page < c.par4Ofs then
      (eslcPartPage c page).map fun
        | .skip => stay .skip
        | .page q => enable (.page q) (if page % (c.pagecnt / 2) = 0 then some q else none)
    else if (page : Int) ≥ ((c.blkcnt : Int) - 8) * c.pagecnt then some (enable (.page page) none)
    else if c.eslcWrite = 2 then
      some { stay (.page page) with setParameter := some .defaultValue, eslcWrite := 0 }
    else some (stay (.page page))
  else some (stay (.page page))

def writePageCmd (c : Chip) (command : Command) (page : Nat) : Option Target :=
  (wmtNandWritePage c page).bind fun w =>
    match w.target with
    | .skip => some .skip
    | .page q => wmtNandCmdfunc c command q

def writePageProgram (c : Chip) (page : Nat) : Option Target := writePageCmd c .seqin page

/-- The page that it reads back, with `CONFIG_MTD_NAND_VERIFY_WRITE`. -/
def writePageVerify (c : Chip) (page : Nat) : Option Target := writePageCmd c .read0 page

def writePageErase (c : Chip) (page : Nat) : Option Target :=
  (wmtNandWritePage c page).bind fun w =>
    match w.erase with
    | none => some .skip
    | some q => wmtNandCmdfunc c .erase1 q

def singleEraseCmd (c : Chip) (page : Nat) : Option Target :=
  if c.curChip = true ∧ c.id >>> 24 = nandMfrHynix ∧ c.wholeEslc = 0 ∧ c.probEnd = 1 ∧
      page < c.par4Ofs then some .skip
  else wmtNandCmdfunc c .erase1 page

end Wm8850.Nand
