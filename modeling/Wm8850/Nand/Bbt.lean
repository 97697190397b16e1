import Wm8850.Lib.Packed
import Wm8850.Nand.Randomizer
import Wm8850.Lib.Reach

/-! # The bad block tables on the flash

`drivers/mtd/nand/nand_bbt.c` keeps two bits for each block in memory, and on the flash in two
copies, the main table `td` and the mirror `md`. A copy has a pattern and a version byte, out of
band or in front of the table (`NAND_BBT_NO_OOB`).

What a call does to the flash is a list of erases and writes, which succeed; a power loss leaves a
part of the list. Left out are a device without a mirror, `NAND_BBT_ABSPAGE`, the options of
`check_pattern` that only a bad block pattern has, and the size of the temporary buffer.
`bbt_erase_shift` is `phys_erase_shift`, and `maxblocks` is at most the number of blocks. -/

namespace Wm8850.Nand.Bbt

open Lib List

def EINVAL : Int := 22

def ENOSPC : Int := 28

/-- A `struct nand_bbt_descr`. -/
structure Descr where
  /-- `options & NAND_BBT_NRBITS_MSK` -/
  bits : Nat
  lastBlock : Bool
  perChip : Bool
  version : Bool
  saveContent : Bool
  noOob : Bool
  create : Bool
  write : Bool
  offs : Nat
  veroffs : Nat
  pattern : List (BitVec 8)
  maxblocks : Nat
  reservedBlockCode : Nat

/-- The fields `pages` and `version` of `struct nand_bbt_descr`, by chip. The page `-1` is
`none`. -/
structure Place where
  pages : Nat → Option Nat
  version : Nat → BitVec 8

/-- The geometry of the device. -/
structure Device where
  bbtEraseShift : Nat
  pageShift : Nat
  chipShift : Nat
  chipBlocks : Nat
  oobsize : Nat
  numchips : Nat
  page_le : pageShift ≤ bbtEraseShift
  chips_pos : 0 < numchips
  blocks_lt : numchips * chipBlocks < 2 ^ 28

def Device.writesize (v : Device) : Nat := 2 ^ v.pageShift

def Device.blocksize (v : Device) : Nat := 2 ^ v.bbtEraseShift

def Device.chipsize (v : Device) : Nat := v.chipBlocks <<< v.bbtEraseShift

def Device.size (v : Device) : Nat := v.numchips * v.chipsize

/-- The blocks that a table is about. -/
def Device.numblocks (v : Device) (d : Descr) : Nat :=
  if d.perChip then v.chipsize >>> v.bbtEraseShift else v.size >>> v.bbtEraseShift

/-- The number of tables. -/
def Device.chips (v : Device) (d : Descr) : Nat := if d.perChip then v.numchips else 1

def Device.blocktopage (v : Device) : Nat := v.bbtEraseShift - v.pageShift

/-! ### The flash -/

/-- The data and the spare areas. -/
structure Flash where
  data : Bytes
  oob : Nat → Bytes

inductive FlashOp where
  | erase (addr : Nat)
  /-- `len` bytes to the address `dest`, and the out-of-band bytes of the first page -/
  | write (dest len : Nat) (buf : Bytes) (oob : Option Bytes)

def FlashOp.apply (v : Device) (f : Flash) : FlashOp → Flash
  | .erase addr =>
    { data := fun p => if addr ≤ p ∧ p < addr + v.blocksize then 0xff else f.data p
      oob := fun q => if addr ≤ q * v.writesize ∧ q * v.writesize < addr + v.blocksize
        then fun _ => 0xff else f.oob q }
  | .write dest len buf oob =>
    { data := fun p => if dest ≤ p ∧ p < dest + len then buf (p - dest) else f.data p
      oob := match oob with
        | none => f.oob
        | some bytes => fun q p =>
          if q = dest >>> v.pageShift ∧ p < v.oobsize then bytes p else f.oob q p }

/-- A series of erases and writes. -/
def Flash.run (v : Device) (f : Flash) (ops : List FlashOp) : Flash :=
  ops.foldl (FlashOp.apply v) f

/-- `nand_read`: the status, `*retlen` and the buffer. The variable `retlen` is set only by a read
of at least one byte. -/
def nandRead (v : Device) (f : Flash) (start len retlen : Nat) (buf : Bytes) : Int × Nat × Bytes :=
  if start + len > v.size then (-EINVAL, retlen, buf)
  else if len = 0 then (0, retlen, buf)
  else (0, len, fun p => if p < len then f.data (start + p) else buf p)

/-- The two bits of a block in the table in memory. -/
def blockState (bbt : Bytes) (block : Nat) : BitVec 8 :=
  (bbt (block >>> 2) >>> (2 * (block &&& 0x03))) &&& 0x03

/-- `nand_erase_nand` with `allowbbt` 1. The check of a worn block erases it. -/
def nandEraseNand (v : Device) (bbt : Bytes) (addr : Nat) : Int × List FlashOp :=
  if addr % v.blocksize ≠ 0 ∨ addr + v.blocksize > v.size then (-EINVAL, [])
  else
    let res := blockState bbt (addr >>> v.bbtEraseShift)
    if res = 0x00 ∨ res = 0x02 then (0, [.erase addr])
    else if res = 0x01 then (- EIO, [.erase addr])
    else (- EIO, [])

def scanWriteBbt (v : Device) (dest len : Nat) (buf : Bytes) (oob : Option Bytes) :
    Int × List FlashOp :=
  if dest + len > v.size then (-EINVAL, []) else (0, [.write dest len buf oob])

/-! ### Reading -/

/-- The length of the pattern and the version in front of a table. -/
def addMarkerLen (d : Descr) : Nat :=
  if d.noOob then d.pattern.length + (if d.version then 1 else 0) else 0

def readCode (d : Descr) (tmp : BitVec 8) : Option (BitVec 8) :=
  if tmp = lowMask d.bits then none
  else if d.reservedBlockCode ≠ 0 ∧ tmp.toNat = d.reservedBlockCode then some 0x2
  else if tmp = 0 then some 0x3
  else some 0x1

def readByte (d : Descr) (offs : Nat) (dat : BitVec 8) (s : Nat × Bytes) : Nat × Bytes :=
  (range ((8 + d.bits - 1) / d.bits)).foldl
    (fun s j =>
      let (act, bbt) := s
      let tmp := (dat >>> (d.bits * j)) &&& lowMask d.bits
      (act + 2,
        match readCode d tmp with
        | none => bbt
        | some code => orAt bbt (offs + act >>> 3) (code <<< (act &&& 0x06)))) s

def readBytes (d : Descr) (offs len : Nat) (buf : Bytes) (s : Nat × Bytes) : Nat × Bytes :=
  (range len).foldl (fun s i => readByte d offs (buf i) s) s

structure ReadState where
  totlen : Nat
  markerLen : Nat
  start : Nat
  act : Nat
  bbt : Bytes
  retlen : Nat
  buf : Bytes

/-- The loop of `read_bbt`, with the value that is returned. The rounds are counted: `none` is a
loop that did not end, or a read that runs over the buffer. -/
def readLoop (v : Device) (f : Flash) (d : Descr) (offs : Nat) :
    Nat → ReadState → Option (Int × Bytes)
  | 0, _ => none
  | fuel + 1, s =>
    if s.totlen = 0 then some (0, s.bbt)
    else
      let len := min s.totlen v.blocksize
      let (len, start, markerLen) :=
        if s.markerLen ≠ 0 then (wsub len s.markerLen, s.start + s.markerLen, 0)
        else (len, s.start, s.markerLen)
      let (res, retlen, buf) := nandRead v f start len s.retlen s.buf
      if res < 0 ∧ retlen ≠ len then some (res, s.bbt)
      -- no buffer has half of the address space
      else if 2 ^ 31 ≤ len then none
      else
        let (act, bbt) := readBytes d offs len buf (s.act, s.bbt)
        readLoop v f d offs fuel
          { totlen := wsub s.totlen len, markerLen := markerLen, start := start + len
            act := act, bbt := bbt, retlen := retlen, buf := buf }

/-- Reads a table from the flash, block by block. -/
def readBbt (v : Device) (f : Flash) (retlen page num : Nat) (d : Descr) (offs : Nat)
    (bbt : Bytes) : Option (Int × Bytes) :=
  let totlen := (num * d.bits) >>> 3
  readLoop v f d offs (totlen + 2)
    { totlen := totlen, markerLen := addMarkerLen d, start := page <<< v.pageShift, act := 0
      bbt := bbt, retlen := retlen, buf := fun _ => 0xff }

def readChips (v : Device) (f : Flash) (retlen : Nat) (d : Descr) (place : Place)
    (chip : Option Nat) : List Nat → Bytes → Option (Int × Bytes)
  | [], bbt => some (0, bbt)
  | i :: rest, bbt =>
    if chip = none ∨ chip = some i then
      match (place.pages i).bind fun page =>
        readBbt v f retlen page (v.chipsize >>> v.bbtEraseShift) d
          (i * (v.chipsize >>> (v.bbtEraseShift + 2))) bbt with
      | none => none
      | some (res, bbt) =>
        if res ≠ 0 then some (res, bbt) else readChips v f retlen d place chip rest bbt
    else readChips v f retlen d place chip rest bbt

/-- `read_abs_bbt`. Without a page there is no result. -/
def readAbsBbt (v : Device) (f : Flash) (retlen : Nat) (d : Descr) (place : Place)
    (chip : Option Nat) (bbt : Bytes) : Option (Int × Bytes) :=
  if d.perChip then readChips v f retlen d place chip (range v.numchips) bbt
  else (place.pages 0).bind fun page =>
    readBbt v f retlen page (v.size >>> v.bbtEraseShift) d 0 bbt

/-! ### Writing -/

structure Masks where
  sft : Nat
  sftmsk : Nat
  msk : BitVec 8 → BitVec 8

def masks (d : Descr) : Option Masks :=
  let rcode : BitVec 8 := BitVec.ofNat 8 d.reservedBlockCode
  let rcode := if rcode = 0 then 0xff else rcode
  let msk (one three : BitVec 8) (s : BitVec 8) : BitVec 8 :=
    if s = 0 then 0x00 else if s = 1 then one else if s = 2 then ~~~ rcode else three
  if d.bits = 1 then some ⟨3, 0x07, msk 0x01 0x01⟩
  else if d.bits = 2 then some ⟨2, 0x06, msk 0x01 0x03⟩
  else if d.bits = 4 then some ⟨1, 0x04, msk 0x0C 0x0f⟩
  else if d.bits = 8 then some ⟨0, 0x00, msk 0x0F 0xff⟩
  else none

def preset (buf : Bytes) (start n : Nat) : Bytes := fun p =>
  if start ≤ p ∧ p < start + n then 0xff else buf p

def putPattern (buf : Bytes) (start : Nat) (pattern : List (BitVec 8)) : Bytes := fun p =>
  if start ≤ p ∧ p < start + pattern.length then pattern.getD (p - start) 0 else buf p

def align (v : Device) (len : Nat) : Nat := (len + v.writesize - 1) / v.writesize * v.writesize

def walk (k : Masks) (bbt : Bytes) (bbtoffs numblocks offs : Nat) (buf : Bytes) : Bytes :=
  (range ((numblocks + 3) / 4)).foldl
    (fun buf q =>
      let dat := bbt (bbtoffs + q)
      (range 4).foldl
        (fun buf j =>
          let i := 4 * q + j
          let sftcnt := (i <<< (3 - k.sft)) &&& k.sftmsk
          clearAt buf (offs + i >>> k.sft) (k.msk ((dat >>> (2 * j)) &&& 0x03) <<< sftcnt)) buf)
    buf

/-- The bytes that are written: `to` (here `dest`), `len`, `buf`, and the `offs` of the table in the
buffer. -/
structure Image where
  dest : Nat
  len : Nat
  buf : Bytes
  offs : Nat

/-- The buffer before the version and the table are put in it, and `ooboffs`. `none` is a block
whose contents cannot be saved. -/
def emptyImage (v : Device) (f : Flash) (retlen : Nat) (d : Descr) (sft numblocks page : Nat) :
    Except Int (Image × Nat) :=
  let dest := page <<< v.pageShift
  if d.saveContent then
    let dest := dest - dest % v.blocksize
    let len := v.blocksize
    let (res, ret, buf) := nandRead v f dest len retlen fun _ => 0xff
    if res < 0 ∧ ret ≠ len then .error res
    else
      let pages := len >>> v.pageShift
      let second := dest >>> v.pageShift + 1
      if dest + v.writesize ≥ v.size ∨
          pages * v.oobsize > (v.size >>> v.pageShift - second) * v.oobsize then .error (-EINVAL)
      else
        let buf : Bytes := fun p =>
          if len ≤ p ∧ p < len + pages * v.oobsize then
            f.oob (second + (p - len) / v.oobsize) ((p - len) % v.oobsize)
          else buf p
        let pageoffs := page - dest >>> v.pageShift
        let offs := pageoffs <<< v.pageShift
        .ok (⟨dest, len, preset buf offs (numblocks >>> sft), offs⟩, len + pageoffs * v.oobsize)
  else if d.noOob then
    let offs := d.pattern.length + (if d.version then 1 else 0)
    let len := align v (numblocks >>> sft + offs)
    .ok (⟨dest, len, putPattern (preset (fun _ => 0xff) 0 len) 0 d.pattern, offs⟩, 0)
  else
    let len := align v (numblocks >>> sft)
    let buf := preset (fun _ => 0xff) 0 (len + (len >>> v.pageShift) * v.oobsize)
    .ok (⟨dest, len, putPattern buf (len + d.offs) d.pattern, 0⟩, len)

/-- What `write_bbt` writes for a chip. -/
def bbtImage (v : Device) (f : Flash) (retlen : Nat) (d : Descr) (version : BitVec 8) (bbt : Bytes)
    (chip page : Nat) : Except Int Image :=
  match masks d with
  | none => .error (-EINVAL)
  | some k => do
    let numblocks := v.numblocks d
    let (im, ooboffs) ← emptyImage v f retlen d k.sft numblocks page
    let buf : Bytes := fun p =>
      if d.version = true ∧ p = ooboffs + d.veroffs then version else im.buf p
    return { im with buf := walk k bbt (chip * (numblocks >>> 2)) numblocks im.offs buf }

def Descr.blockFrom (d : Descr) (startblock i : Nat) : Nat :=
  if d.lastBlock then startblock - i else startblock + i

/-- The page for a table: a good block that the other table does not have. -/
def placeBbt (v : Device) (d : Descr) (other : Place) (bbt : Bytes) (chip : Nat) : Option Nat :=
  let startblock :=
    if d.lastBlock then v.numblocks d * (chip + 1) - 1 else chip * v.numblocks d
  (range d.maxblocks).findSome? fun i =>
    let block := d.blockFrom startblock i
    if blockState bbt block = 0x01 ∨ blockState bbt block = 0x03 then none
    else
      let page := block <<< v.blocktopage
      if other.pages chip ≠ some page then some page else none

structure WriteResult where
  ret : Int
  place : Place
  ops : List FlashOp

def writeChip (v : Device) (f : Flash) (retlen : Nat) (d : Descr) (place other : Place)
    (bbt : Bytes) (chip : Nat) : WriteResult :=
  match (place.pages chip).or (placeBbt v d other bbt chip) with
  | none => ⟨-ENOSPC, place, []⟩
  | some page =>
    match bbtImage v f retlen d (place.version chip) bbt chip page with
    | .error res => ⟨res, place, []⟩
    | .ok im =>
      let (res, ops) := nandEraseNand v bbt im.dest
      if res < 0 then ⟨res, place, ops⟩
      else
        let oob := if d.noOob then none else some fun p => im.buf (im.len + p)
        let (res, ops') := scanWriteBbt v im.dest im.len im.buf oob
        if res < 0 then ⟨res, place, ops ++ ops'⟩
        else
          let pages := fun i => if i = chip then some page else place.pages i
          ⟨0, { place with pages := pages }, ops ++ ops'⟩

def writeChips (v : Device) (retlen : Nat) (d : Descr) (other : Place) (bbt : Bytes) :
    List Nat → Flash → Place → WriteResult
  | [], _, place => ⟨0, place, []⟩
  | chip :: rest, f, place =>
    let r := writeChip v f retlen d place other bbt chip
    if r.ret < 0 then r
    else
      let r' := writeChips v retlen d other bbt rest (f.run v r.ops) r.place
      { r' with ops := r.ops ++ r'.ops }

/-- `write_bbt`, with `chipsel`, or with `none` for `-1`. -/
def writeBbt (v : Device) (f : Flash) (retlen : Nat) (d : Descr) (place other : Place) (bbt : Bytes)
    (chipsel : Option Nat) : WriteResult :=
  let chips :=
    if d.perChip then
      match chipsel with
      | none => range v.numchips
      | some chip => [chip]
    else [0]
  writeChips v retlen d other bbt chips f place

/-! ### Searching -/

def scanReadRaw (v : Device) (f : Flash) (d : Descr) (block : Nat) : Bytes := fun p =>
  let offs := block <<< v.bbtEraseShift
  if d.noOob = true ∨ p < v.writesize then f.data (offs + p)
  else f.oob (offs >>> v.pageShift) (p - v.writesize)

def checkPattern (v : Device) (f : Flash) (d : Descr) (block : Nat) : Bool :=
  let start := if d.noOob then 0 else v.writesize + d.offs
  (range d.pattern.length).all fun i =>
    scanReadRaw v f d block (start + i) == d.pattern.getD i 0

def readVersion (v : Device) (f : Flash) (d : Descr) (block : Nat) : BitVec 8 :=
  scanReadRaw v f d block (if d.noOob then d.veroffs else d.veroffs + v.writesize)

def searchStart (v : Device) (d : Descr) (i : Nat) : Nat :=
  let startblock := if d.lastBlock then v.size >>> v.bbtEraseShift - 1 else 0
  let startblock := if d.perChip then startblock &&& (v.numblocks d - 1) else startblock
  startblock + i * (v.chipsize >>> v.bbtEraseShift)

def findBbt (v : Device) (f : Flash) (d : Descr) (i : Nat) : Option Nat :=
  ((range d.maxblocks).map (d.blockFrom (searchStart v d i))).find? (checkPattern v f d)

/-- Where the tables are found. -/
def searchBbt (v : Device) (f : Flash) (d : Descr) : Place :=
  { pages := fun i => (findBbt v f d i).map (· <<< v.blocktopage)
    version := fun i =>
      match findBbt v f d i with
      | none => 0
      | some block => if d.version then readVersion v f d block else 0 }

/-! ### Reserving -/

/-- The blocks that `mark_bbt_region` marks with 2 for chip `i`. The table of read retries has a
pattern that starts with `re`. -/
def regionBlocks (v : Device) (d : Descr) (place : Place) (i : Nat) : List Nat :=
  if d.write then
    let block :=
      if d.lastBlock then
        (i + 1) * v.numblocks d - d.maxblocks - if d.pattern.take 2 = [0x72, 0x65] then 4 else 0
      else i * v.numblocks d
    (range d.maxblocks).map (block + ·)
  else ((place.pages i).map (· >>> v.blocktopage)).toList

/-! ### The two copies -/

/-- The device and the descriptors of its two tables. -/
structure Setup where
  dev : Device
  td : Descr
  md : Descr
  createEmptyBbt : Bool
  createBbt : Option Nat → Bytes → Bytes

/-- The table in memory, and where the copies are. -/
structure Mem where
  bbt : Bytes
  td : Place
  md : Place

/-- A result, with the operations on the flash. -/
structure Result where
  ret : Int
  mem : Mem
  ops : List FlashOp

inductive Plan where
  | create
  /-- `rd`, `rd2` and `writeops`; the main table is `true` -/
  | use (rd : Bool) (rd2 : Option Bool) (writeTd writeMd : Bool)
deriving Repr, DecidableEq

def checkPlan (s : Setup) (m : Mem) (i : Nat) : Plan × BitVec 8 × BitVec 8 :=
  let tv := m.td.version i
  let mv := m.md.version i
  match m.td.pages i, m.md.pages i with
  | none, none => (.create, tv, mv)
  | none, some _ => (.use false none true false, mv, mv)
  | some _, none => (.use true none false true, tv, tv)
  | some _, some _ =>
    if tv = mv then (.use true (if s.td.version then none else some false) false false, tv, mv)
    else if 0 < (tv - mv).toInt then (.use true none false true, tv, tv)
    else (.use false none true false, mv, mv)

def Mem.setVersions (m : Mem) (i : Nat) (tv mv : BitVec 8) : Mem :=
  { m with
    td := { m.td with version := fun j => if j = i then tv else m.td.version j }
    md := { m.md with version := fun j => if j = i then mv else m.md.version j } }

/-- `read_abs_bbt` of one of the tables. Its result is not looked at. -/
def readTable (s : Setup) (f : Flash) (retlen : Nat) (main : Bool) (chipsel : Option Nat)
    (m : Mem) :
    Option Mem :=
  let r := if main then readAbsBbt s.dev f retlen s.td m.td chipsel m.bbt
    else readAbsBbt s.dev f retlen s.md m.md chipsel m.bbt
  r.map fun r => { m with bbt := r.2 }

def writeTables (s : Setup) (f : Flash) (retlen : Nat) (writeTd writeMd : Bool)
    (chipsel : Option Nat) (m : Mem) : Result :=
  let r : WriteResult :=
    if writeTd = true ∧ s.td.write = true then
      writeBbt s.dev f retlen s.td m.td m.md m.bbt chipsel
    else ⟨0, m.td, []⟩
  let m := { m with td := r.place }
  if r.ret < 0 then ⟨r.ret, m, r.ops⟩
  else
    let f := f.run s.dev r.ops
    let r' : WriteResult :=
      if writeMd = true ∧ s.md.write = true then
        writeBbt s.dev f retlen s.md m.md m.td m.bbt chipsel
      else ⟨0, m.md, []⟩
    ⟨r'.ret, { m with md := r'.place }, r.ops ++ r'.ops⟩

def checkCreateChip (s : Setup) (f : Flash) (retlen : Nat) (m : Mem) (i : Nat) : Option Result :=
  let chipsel := if s.td.perChip then some i else none
  let (plan, tv, mv) := checkPlan s m i
  match plan with
  | .create =>
    if s.td.create then
      let m := if s.createEmptyBbt then m else { m with bbt := s.createBbt chipsel m.bbt }
      some (writeTables s f retlen true true chipsel (m.setVersions i 1 1))
    else some ⟨0, m, []⟩
  | .use rd rd2 writeTd writeMd => do
    let m := m.setVersions i tv mv
    let m ← readTable s f retlen rd chipsel m
    let m ← match rd2 with
      | none => some m
      | some rd2 => readTable s f retlen rd2 chipsel m
    return writeTables s f retlen writeTd writeMd chipsel m

def checkChips (s : Setup) (retlen : Nat) : List Nat → Flash → Mem → Option Result
  | [], _, m => some ⟨0, m, []⟩
  | i :: rest, f, m => do
    let r ← checkCreateChip s f retlen m i
    if r.ret < 0 then return r
    else
      let r' ← checkChips s retlen rest (f.run s.dev r.ops) r.mem
      return { r' with ops := r.ops ++ r'.ops }

/-- `search_read_bbts` and `check_create`, with a cleared table, as in `nand_scan_bbt`. -/
def scanBbt (s : Setup) (f : Flash) (retlen : Nat) : Option Result :=
  let m : Mem :=
    { bbt := fun _ => 0, td := searchBbt s.dev f s.td, md := searchBbt s.dev f s.md }
  checkChips s retlen (range (s.dev.chips s.td)) f m

def nandUpdateBbt (s : Setup) (f : Flash) (retlen : Nat) (m : Mem) (offs : Nat) : Result :=
  let chip := if s.td.perChip then offs >>> s.dev.chipShift else 0
  let chipsel := if s.td.perChip then some chip else none
  let m := m.setVersions chip (m.td.version chip + 1) (m.md.version chip + 1)
  writeTables s f retlen true true chipsel m

/-! ### Updates, power losses and restarts

For each chip the state also has the table of the last completed update or load, and that of an
interrupted one. The blocks of the two copies are reserved (`mark_bbt_region`), so they are not bad
in a table that is written. -/

/-- The flash, the memory, and the tables that a copy may have. -/
structure Sys where
  flash : Flash
  mem : Option Mem
  table : Nat → Bytes
  next : Nat → Bytes

def updateChip (s : Setup) (offs : Nat) : Nat :=
  if s.td.perChip then offs >>> s.dev.chipShift else 0

/-- The blocks of the two copies are not bad in the table. -/
def Spared (s : Setup) (m : Mem) (bbt : Bytes) (chip : Nat) : Prop :=
  ∀ b, m.td.pages chip = some (b <<< s.dev.blocktopage) ∨
      m.md.pages chip = some (b <<< s.dev.blocktopage) →
    blockState bbt b ≠ 1 ∧ blockState bbt b ≠ 3

/-- An update or a start, with or without a loss of power. -/
inductive Event where
  | update (offs : Nat) (bbt : Bytes) (retlen : Nat)
  /-- the same, and the power is lost after `k` operations -/
  | lostUpdate (offs : Nat) (bbt : Bytes) (retlen k : Nat)
  | start (retlen : Nat)
  | lostStart (retlen k : Nat)

def Sys.Step (s : Setup) : Event → Sys → Sys → Prop
  | .update offs bbt retlen, x, y => ∃ m, x.mem = some m ∧
      updateChip s offs < s.dev.chips s.td ∧ Spared s m bbt (updateChip s offs) ∧
      let r := nandUpdateBbt s x.flash retlen { m with bbt := bbt } offs
      y = { flash := x.flash.run s.dev r.ops
            mem := some r.mem
            table := fun i => if i = updateChip s offs then bbt else x.table i
            next := fun i => if i = updateChip s offs then bbt else x.next i }
  | .lostUpdate offs bbt retlen k, x, y => ∃ m, x.mem = some m ∧
      updateChip s offs < s.dev.chips s.td ∧ Spared s m bbt (updateChip s offs) ∧
      let r := nandUpdateBbt s x.flash retlen { m with bbt := bbt } offs
      y = { flash := x.flash.run s.dev (r.ops.take k)
            mem := none
            table := x.table
            next := fun i => if i = updateChip s offs then bbt else x.next i }
  | .start retlen, x, y => x.mem = none ∧ ∃ r, scanBbt s x.flash retlen = some r ∧
      y = { flash := x.flash.run s.dev r.ops
            mem := some r.mem
            table := fun _ => r.mem.bbt
            next := fun _ => r.mem.bbt }
  | .lostStart retlen k, x, y => x.mem = none ∧ ∃ r, scanBbt s x.flash retlen = some r ∧
      y = { x with flash := x.flash.run s.dev (r.ops.take k) }

end Wm8850.Nand.Bbt
