import Mathlib.Data.BitVec

/-! # The DMA descriptors of the USB device controller

`wmt_udc_pdma_des_prepare` cuts a buffer into parts of 32 KB and writes a descriptor for each.
Memory is a word for each address. The descriptors of a channel have a virtual address, where the
driver writes them, and a physical one, where the controller reads them. -/

namespace Wm8850.Udc

open Function

abbrev Mem := Nat → BitVec 32

/-- `DESCRIPTOT_TYPE_*`. -/
inductive DesType where
  | short | long | mix
  deriving DecidableEq

/-- `TRANS_OUT`, `TRANS_IN` with and without `is_bulk`, and any other value. -/
inductive Channel where
  | out | bulkIn | otherIn | wrong
  deriving DecidableEq

/-- The addresses of the descriptors, and the registers `Bulk1EpMaxLen` to `Bulk3EpMaxLen`. -/
structure Config where
  vir : DesType → Channel → Nat
  phy : DesType → Channel → Nat
  epMaxLen : Channel → BitVec 16

def Config.desVirAddr (c : Config) (t : DesType) (ch : Channel) :
    Nat := if ch = .wrong then 0 else c.vir t ch
def Config.desPhyAddr (c : Config) (t : DesType) (ch : Channel) :
    Nat := if ch = .wrong then 0 else c.phy t ch
def Config.cutSize (c : Config) (ch : Channel) : BitVec 16 :=
  if ch = .wrong then 0x40 else c.epMaxLen ch &&& 0x3ff

/-- The bit fields of `D_Word0`. The reserved bits stay. -/
def word0 (old : BitVec 32) (reqCount : BitVec 16) (i format fin : Bool) : BitVec 32 :=
  BitVec.ofBool fin ++ BitVec.ofBool format ++ old.extractLsb' 17 13 ++ BitVec.ofBool i ++ reqCount

/-- `DES_S_SIZE` and `DES_L_SIZE`. -/
def DesType.size : DesType → Nat
  | .short => 0x4
  | _ => 0x10

/-- The fields of a descriptor at `vir`. -/
def writeDes (t : DesType) (cut : BitVec 16) (mem : Mem) (vir : Nat) (dma : BitVec 32) (res : Nat) :
    Mem :=
  let last := decide (res ≤ 32767)
  let mem := update mem (vir + 4) dma
  let mem := update mem vir
    (word0 (mem vir) (if last then BitVec.ofNat 16 res else 0x8000 - cut) last (t = .long) last)
  if t = .long then update mem (vir + 8) (if last then 0 else BitVec.ofNat 32 (vir + t.size))
    else mem

/-- The loop over `res_size`, with the number of descriptors. There are at most as many rounds as
bytes. -/
def desLoop (t : DesType) (cut : BitVec 16) : Nat → Mem → Nat → BitVec 32 → Nat → Mem × Nat
  | 0, mem, _, _, _ => (mem, 0)
  | rounds + 1, mem, vir, dma, res =>
    if res = 0 then (mem, 0)
    else if res ≤ 32767 then (writeDes t cut mem vir dma res, 1)
    else
      let r := desLoop t cut rounds (writeDes t cut mem vir dma res) (vir + t.size) (dma + 0x8000)
        (res - 0x8000)
      (r.1, r.2 + 1)

/-- `memset(des_vir_addr, 0, 0x100)`. -/
def clearDes (mem : Mem) (vir : Nat) :
    Mem := fun a => if vir ≤ a ∧ a < vir + 0x100 then 0 else mem a

/-- `wmt_udc_pdma_des_prepare`: the memory, and the number of descriptors. -/
def wmtUdcPdmaDesPrepare (c : Config) (mem : Mem) (size : Nat) (dmaPhy : BitVec 32) (t : DesType)
    (ch : Channel) :
    Mem × Nat :=
  match t with
  | .short => desLoop .short (c.cutSize ch) size mem (c.desVirAddr .short ch) dmaPhy size
  | .long =>
    desLoop .long (c.cutSize ch) size (clearDes mem (c.desVirAddr .long ch))
      (c.desVirAddr .long ch) dmaPhy size
  | .mix => (mem, 0)

/-- The descriptor of the part `k` of `n`, at the virtual address `vir` and the physical address
`phy` of the chain: only the last one has the end and the interrupt bit, and a long one branches to
the next. -/
structure Describes (t : DesType) (mem : Mem) (vir phy : Nat) (dmaPhy : BitVec 32) (n k : Nat) :
    Prop where
  fin : (mem (vir + t.size * k)).getLsbD 31 = decide (k + 1 = n)
  int : (mem (vir + t.size * k)).getLsbD 16 = decide (k + 1 = n)
  addr : mem (vir + t.size * k + 4) = dmaPhy + BitVec.ofNat 32 (0x8000 * k)
  branch : t = .long → k + 1 < n →
    mem (vir + t.size * k + 8) = BitVec.ofNat 32 (phy + t.size * (k + 1))

end Wm8850.Udc
