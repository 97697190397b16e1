import Wm8850.Nand.Eslc

/-! # The scrambled pages of the NAND driver

With `CONFIG_MTD_NAND_RANDOMIZER` a page and the first out-of-band bytes are mixed with keys, and
the mark `zmdr` tells a read so. Two chips of Toshiba have a table of keys for each of eight frames
(`randomize_data`), all others one ring of words (`rdmzier`). The tables are parameters.

`Stored` is what the flash gets of the DMA buffer and of the registers from `ECC_FIFO_0` on. The
parity registers are left out: a read does not take them. Buffers, registers and `fifo` are at
aligned addresses. -/

namespace Wm8850.Nand

open Lib

/-- The tables of the randomizer. -/
structure Tables where
  rdmz : Nat → BitVec 32
  randTable : Nat → Nat → BitVec 32

/-! ### The ring of words -/

def byteSeed : Nat := 2112

def rdmzKeys (t : Tables) : Nat → Nat → List (BitVec 8)
  | 0, _ => []
  | size + 1, j => leBytes (t.rdmz j) ++ rdmzKeys t size (if j + 1 ≥ byteSeed then 0 else j + 1)

def rdmzier (t : Tables) (buf : Bytes) (size page : Nat) : Bytes :=
  xorKeys (rdmzKeys t size (page % 256)) buf

def rdmzierOob (t : Tables) (buf src : Bytes) (size page ofs : Nat) : Bytes :=
  copyKeys (rdmzKeys t size ((page % 256 + ofs) % byteSeed)) src buf

/-! ### The table of frames -/

def eccFrames : Nat := 8

def maxPageMainSize : Nat := 16384

def maxPageSpareSize : Nat := 1280

def maxPagesPerBlock : Nat := 256

structure Rndmz where
  pgsize : Nat
  spsize : Nat
  pgPerBk : Nat
  frSize : Nat
  initDone : Bool
deriving Repr, DecidableEq

def Rndmz.default : Rndmz :=
  { pgsize := 16384, spsize := 640, pgPerBk := 256, frSize := (16384 + 640) / eccFrames
    initDone := false }

def initRandomizer (r : Rndmz) (pgsize spsize pgPerBk : Int) : Rndmz × Int :=
  let r := if pgsize ≥ 0 then { r with pgsize := pgsize.toNat } else r
  let r := if spsize ≥ 0 then { r with spsize := spsize.toNat } else r
  let r := if pgPerBk ≥ 0 then { r with pgPerBk := pgPerBk.toNat } else r
  if (r.pgsize ≤ 0 ∨ r.pgsize > maxPageMainSize) ∨ (r.spsize ≤ 0 ∨ r.spsize > maxPageSpareSize) ∨
      (r.pgPerBk ≤ 0 ∨ r.pgPerBk > maxPagesPerBlock) then (r, -1)
  -- page and spare size should be a multiple of the frame count
  else if (r.pgsize + r.spsize) % eccFrames ≠ 0 then (r, -1)
  -- page count per block should be a power of 2
  else if r.pgPerBk &&& (r.pgPerBk - 1) ≠ 0 then (r, -1)
  else ({ r with frSize := (r.pgsize + r.spsize) / eccFrames, initDone := true }, 0)

/-- The keys of one frame: bytes up to an aligned address of the buffer, words, and the bytes that
are left.
-/
def frameKeys (tbl : Nat → BitVec 32) (start offset bufMisalign : Nat) (rndmzSize : Int) :
    List (BitVec 8) :=
  let tblMisalign := (start + offset + bufMisalign) % 4
  let ptbl := (start + offset + bufMisalign) / 4
  -- `rndmz_size` is an `int` that can be negative here. A `for` loop to a negative bound does not
  -- run.
  let loop64 := (rndmzSize / 64).toNat
  let loop4 := (rndmzSize / 4 % 16).toNat
  let loop1 := (rndmzSize % 4).toNat
  let words := loop64 * 16 + loop4
  let word (k : Nat) : BitVec 32 :=
    if tblMisalign ≠ 0 then
      let shiftA := tblMisalign * 8
      let shiftB := 32 - shiftA
      (tbl (ptbl + k) >>> shiftA) ||| (tbl (ptbl + k + 1) <<< shiftB)
    else tbl (ptbl + k)
  (List.range bufMisalign).map (fun j => bytesOf tbl (start + offset + j)) ++
    (List.range words).flatMap (fun k => leBytes (word k)) ++
    (List.range loop1).map (fun j => bytesOf tbl (4 * (ptbl + words) + tblMisalign + j))

/-- The buffer is now at an address that is `addr` modulo four. -/
def frameLoop (t : Tables) (frSize start : Nat) :
    Nat → Nat → Nat → Nat → Nat → List (BitVec 8)
  | 0, _, _, _, _ => []
  | n + 1, i, offset, size, addr =>
    if offset ≥ frSize then frameLoop t frSize start n (i + 1) (offset - frSize) size addr
    else
      let rndmzSize := if frSize - offset < size then frSize - offset else size
      let bufMisalign := (4 - addr % 4) % 4
      let rest : Int := (rndmzSize : Int) - bufMisalign
      let keys := frameKeys (t.randTable i) start offset bufMisalign rest
      keys ++ frameLoop t frSize start n (i + 1) 0 ((size : Int) - rest).toNat (addr + keys.length)

def randomizeKeys (t : Tables) (r : Rndmz) (start offset size addr : Nat) : List (BitVec 8) :=
  frameLoop t r.frSize start eccFrames 0 offset size addr

def randomizeCopy (t : Tables) (r : Rndmz) (start offset size addr : Nat) (src dst : Bytes) :
    Bytes :=
  copyKeys (randomizeKeys t r start offset size addr) src dst

def randomizeOverwrite (t : Tables) (r : Rndmz) (start offset size addr : Nat) (buf : Bytes) :
    Bytes :=
  xorKeys (randomizeKeys t r start offset size addr) buf

/-- `randomize_data` from `org` into `rnd` at `addr`. There is no `org` when it is `rnd`. `none` is
the result `-1`. -/
def randomizeData (t : Tables) (r : Rndmz) (pageAddr colAddr size : Nat)
    (org : Option (Bytes × Nat)) (rnd : Bytes) (addr : Nat) : Option Bytes :=
  let start := pageAddr &&& (r.pgPerBk - 1)
  if r.initDone = false ∨ colAddr + size > r.pgsize + r.spsize then none
  else
    match org with
    | none => some (randomizeOverwrite t r start colAddr size addr rnd)
    | some (src, srcAddr) =>
      if srcAddr % 4 ≠ addr % 4 then
        some (randomizeOverwrite t r start colAddr size addr (memcpy rnd src size))
      else some (randomizeCopy t r start colAddr size addr src rnd)

/-! ### The pages -/

structure Mtd where
  id : Nat
  isRandomizer : Bool
  writesize : Nat
  oobsize : Nat
  rndmz : Rndmz

def Mtd.Toshiba (m : Mtd) : Prop := m.id = 0x98de9482 ∨ m.id = 0x98de8493

instance (m : Mtd) : Decidable m.Toshiba := inferInstanceAs (Decidable (_ ∨ _))

/-- The start of the randomizer in the probe, which does not look at the result. -/
def probeRandomizer (id writesize oobsize pagesPerBlock : Nat) : Mtd :=
  { id := id, isRandomizer := true, writesize := writesize, oobsize := oobsize
    rndmz :=
      if id = 0x98de9482 ∨ id = 0x98de8493 then
        (initRandomizer .default writesize oobsize pagesPerBlock).1
      else .default }

def wmtRdmz : Bytes := fun p => [0x7a#8, 0x6d#8, 0x64#8, 0x72#8].getD p 0

structure Stored where
  data : Bytes
  /-- the registers from `ECC_FIFO_0` on -/
  fifo : Bytes

/-- It changes `chip->oob_poi`, which is the second result. -/
def wmtNandWritePageLowlevel (t : Tables) (m : Mtd) (curPage : Nat) (buf oobPoi : Bytes)
    (oobAddr : Nat) (fifo : Bytes) : Stored × Bytes :=
  let oobPoi : Bytes :=
    if m.isRandomizer then fun p => if 20 ≤ p ∧ p < 24 then wmtRdmz (p - 20) else oobPoi p
    else oobPoi
  let fifo : Bytes :=
    if m.writesize = 4096 ∨ m.writesize ≥ 8192 then
      if m.isRandomizer then
        if m.Toshiba then
          (randomizeData t m.rndmz curPage m.writesize 24 (some (oobPoi, oobAddr)) fifo 0).getD fifo
        else rdmzierOob t fifo oobPoi 6 curPage (m.writesize / 4)
      else memcpy fifo oobPoi 20
    else memcpy fifo oobPoi 20
  ({ data := buf, fifo := fifo }, oobPoi)

/-- The writing part of `wmt_nand_write_page`. `buffer_ramdomizer` and the registers have any bytes
before. -/
def wmtNandWritePageBuf (t : Tables) (m : Mtd) (page : Nat) (buf bufferRamdomizer oobPoi : Bytes)
    (oobAddr : Nat) (fifo : Bytes) : Stored × Bytes :=
  if m.isRandomizer then
    let mixed := memcpy bufferRamdomizer buf m.writesize
    let mixed :=
      if m.Toshiba then (randomizeData t m.rndmz page 0 m.writesize none mixed 0).getD mixed
      else rdmzier t mixed (m.writesize / 4) page
    wmtNandWritePageLowlevel t m page mixed oobPoi oobAddr fifo
  else wmtNandWritePageLowlevel t m page buf oobPoi oobAddr fifo

def EIO : Int := 5

def nandStatusFail : BitVec 32 := 0x01

def nandPdmaCcrEvtSuccess : BitVec 4 := 0xf

/-- What the hardware answers during a write. -/
structure Outcome where
  dmaEn : Bool
  /-- `wmt_nfc_transfer_ready` returns `0` for `NAND_CMD_SEQIN` -/
  transferReady : Bool
  /-- `NFC_DMA_CCR & NAND_PDMA_CCR_EvtCode` -/
  evtCode : BitVec 4
  /-- `wmt_nfc_wait_idle` returns `0` for `NAND_CMD_PAGEPROG` -/
  waitIdle : Bool
  status : BitVec 32
  verifyBuf : Int

/-- What a write depends on. -/
structure Driver where
  tables : Tables
  mtd : Mtd
  chip : Chip
  verifyWrite : Bool
  errstat : Option (BitVec 32 → BitVec 32)

/-- The buffers of a write. -/
structure Buffers where
  buf : Bytes
  bufferRamdomizer : Bytes
  oobPoi : Bytes
  oobAddr : Nat
  fifo : Bytes

/-- An operation on the bus. -/
inductive BusOp where
  | setParameter (mode : EslcMode)
  | erase (page : Target)
  /-- `chip->ecc.write_page` -/
  | load (data : Stored)
  | seqin (page : Target)
  | pageprog
  | waitfunc
  | read0 (page : Target)

/-- The result of a write and its operations. -/
structure WriteRun where
  ret : Int
  ops : List BusOp

/-- `nand_pdma_handler`. The event code is printed. -/
def nandPdmaHandler (_ : Outcome) : Int := 0

/-- `status` after `PAGEPROG`: what `waitfunc` returns, and if it failed, what `errstat` makes of
it. -/
def Driver.programStatus (d : Driver) (o : Outcome) : BitVec 32 :=
  if o.status &&& nandStatusFail ≠ 0 then
    match d.errstat with
    | none => o.status
    | some errstat => errstat o.status
  else o.status

def Driver.stored (d : Driver) (b : Buffers) (q : Nat) : Stored :=
  (wmtNandWritePageBuf d.tables d.mtd q b.buf b.bufferRamdomizer b.oobPoi b.oobAddr b.fifo).1

def eraseOps (c : Chip) (erase : Option Nat) : Option (List BusOp) :=
  match erase with
  | none => some []
  | some page => (wmtNandCmdfunc c .erase1 page).map fun t => [.erase t]

/-- `wmt_nand_write_page`, from `info->cur_page = page` on. -/
def programPage (d : Driver) (o : Outcome) (b : Buffers) (page : Nat) (ops : List BusOp) :
    Option WriteRun := do
  let ops := ops ++ [.load (d.stored b page), .seqin (← wmtNandCmdfunc d.chip .seqin page)]
  -- the status of the transfer is printed and then overwritten
  let _status := nandPdmaHandler o
  let ops := ops ++ [.pageprog, .waitfunc]
  if d.programStatus o &&& nandStatusFail ≠ 0 then return { ret := - EIO, ops := ops }
  else if d.verifyWrite then
    let ops := ops ++ [.read0 (← wmtNandCmdfunc d.chip .read0 page)]
    if o.verifyBuf ≠ 0 then return { ret := - EIO, ops := ops }
    else return { ret := 0, ops := ops }
  else return { ret := 0, ops := ops }

/-- A write from the choice of the page to the status. -/
def wmtNandWritePageRun (d : Driver) (o : Outcome) (b : Buffers) (page : Nat) :
    Option WriteRun := do
  let w ← wmtNandWritePage d.chip page
  match w.target with
  | .skip => return { ret := 0, ops := [] }
  | .page q =>
    let mode := w.setParameter.toList.map BusOp.setParameter
    let erase ← eraseOps d.chip w.erase
    programPage d o b q (mode ++ erase)

end Wm8850.Nand
