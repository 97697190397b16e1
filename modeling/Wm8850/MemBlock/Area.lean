import Wm8850.Lib.Keyed
import Wm8850.Lib.Word

/-! # Areas, blocks and users

`drivers/video/wmt/memblock.c` manages physical memory for the video engines. The host
(`mba_host_struct`) links areas (`mb_area_struct`), an area links its blocks (`mb_struct`) in
address order, and a block its users (`mb_user`). The intrusive lists are nested Lean lists, and
pointers are addresses that are followed with `findKey`. The spin locks are left out: each operation
is one step.

What the kernel answers is an argument: an address or `NULL` from the slab caches, and a
`PageOutcome` for one `mb_alloc_mba`. -/

namespace Wm8850.MemBlock

open Lib

def pageSize : Nat := 4096

/-- `PAGE_ALIGN`: round up to a page in 32-bit arithmetic. A size in the last page of the
address space rounds to `0`. -/
def pageAlign (x : Nat) : Nat := wadd x (pageSize - 1) / pageSize * pageSize

/-- `MB_DEF_TGID`: the task id of the kernel's own calls. -/
def mbDefTgid : Int := 0

def taskCommLen : Nat := 16

def EPERM : Int := 1
def EAGAIN : Int := 11
def ENOMEM : Int := 12
def EFAULT : Int := 14
def EINVAL : Int := 22

/-- The address of a structure. -/
abbrev Ptr := Nat

abbrev Name := List Char

def copyName (name : Name) : Name := name.take taskCommLen

/-- A `struct mb_user`, one hold of a block. -/
structure MbUser where
  ptr : Ptr
  mb : Ptr
  tgid : Int
  /-- user address for a mapping or a user space get, physical address for a kernel get,
  `0` for the creator -/
  addr : Nat
  /-- block size for the creator, map size for a mapping, `0` for a get -/
  size : Nat
  theUser : Name
deriving Repr, DecidableEq

/-- A `struct mem_block`. -/
structure Mb where
  ptr : Ptr
  mba : Ptr
  pfnStart : Nat
  pfnEnd : Nat
  phys : Nat
  virt : Nat
  size : Nat
  count : Int
  creator : Option Ptr
  mbuList : List MbUser
deriving Repr, DecidableEq

/-- `struct mb_area_struct`. `isStatic` is the one flag the driver uses,
`MBAFLAG_STATIC`. -/
structure Mba where
  ptr : Ptr
  isStatic : Bool
  tgid : Int
  phys : Nat
  virt : Nat
  pages : Nat
  pfnStart : Nat
  pfnEnd : Nat
  nrMb : Nat
  totFreePages : Nat
  maxAvailablePages : Nat
  mbList : List Mb
deriving Repr, DecidableEq

/-- The host: all areas and their totals. -/
structure Mbah where
  nrMba : Nat
  totPages : Nat
  totStaticPages : Nat
  totFreePages : Nat
  maxAvailablePages : Nat
  mbaList : List Mba
deriving Repr, DecidableEq

/-- How often a task has the device open. -/
structure MbTaskInfo where
  tgid : Int
  count : Int
  taskName : Name
deriving Repr, DecidableEq

/-- The host and the tasks. -/
structure State where
  mbah : Mbah
  mbtiList : List MbTaskInfo
deriving Repr, DecidableEq

/-- What the configuration of the kernel fixes. -/
structure Config where
  /-- `CONFIG_WMT_MB_RESERVE_FROM_IO`, otherwise `CONFIG_WMT_MB_RESERVE_FROM_KERNEL` -/
  reserveFromIo : Bool
  dynamicAllocate : Bool
  /-- `MB_TOTAL_SIZE` in kilobytes -/
  mbTotalSize : Nat
  numPhyspages : Nat
deriving Repr, DecidableEq

/-! ### Following and writing through pointers -/

/-- All blocks. -/
def Mbah.mbs (h : Mbah) : List Mb := h.mbaList.flatMap Mba.mbList

def Mbah.mba? (h : Mbah) (p : Ptr) : Option Mba := findKey Mba.ptr p h.mbaList

def Mbah.mb? (h : Mbah) (p : Ptr) : Option Mb := findKey Mb.ptr p h.mbs

def Mbah.setMba (h : Mbah) (a : Mba) : Mbah :=
  { h with mbaList := updateKey Mba.ptr a.ptr (fun _ => a) h.mbaList }

def Mba.updMb (p : Ptr) (f : Mb → Mb) (a : Mba) : Mba :=
  { a with mbList := updateKey Mb.ptr p f a.mbList }

def Mbah.updMb (h : Mbah) (p : Ptr) (f : Mb → Mb) : Mbah :=
  { h with mbaList := h.mbaList.map (Mba.updMb p f) }

/-- The hold of the task that allocated the block. -/
def Mb.creatorMbu (mb : Mb) : Option MbUser :=
  mb.creator.bind fun c => findKey MbUser.ptr c mb.mbuList

def Mb.addUser (u : MbUser) (mb : Mb) : Mb :=
  { mb with mbuList := mb.mbuList ++ [u], count := mb.count + 1 }

def Mb.delUser (p : Ptr) (mb : Mb) : Mb :=
  { mb with mbuList := eraseKey MbUser.ptr p mb.mbuList, count := mb.count - 1 }

/-! ### Pages from the kernel -/

structure PageOutcome where
  mba : Option Ptr
  checkRegion : Bool
  requestMemRegion : Bool
  /-- the virtual address from `ioremap`, or from `__get_free_pages` when a free area of
  that order exists -/
  virt : Option Nat
deriving Repr, DecidableEq

def pageOffset : Nat := 0xC0000000

/-- `__pa`, with `PHYS_OFFSET` zero on this machine. -/
def pa (virt : Nat) : Nat := wsub virt pageOffset

def va (phys : Nat) : Nat := wadd phys pageOffset

def getOrder (size : Nat) : Nat :=
  let s := wsub size 1 / pageSize
  if s = 0 then 0 else Nat.log2 s + 1

def Config.mbmaxOrder (cfg : Config) : Nat := if cfg.reserveFromIo then 20 else 10

def mbaMinOrder : Nat := 6

/-- The reserved variant takes the region below a power of two, the kernel variant rounds the
request up to one.
-/
def mbAllocPages (cfg : Config) (out : PageOutcome) (nrPages : Nat) : Option (Nat × Nat × Nat) :=
  if nrPages = 0 then none
  else if cfg.reserveFromIo then
    let order := getOrder (cfg.numPhyspages * pageSize % wordSize)
    let addr := wsub (2 ^ order) nrPages * pageSize % wordSize
    if !out.checkRegion then none
    else if !out.requestMemRegion then none
    else out.virt.map fun virt => (virt, addr, nrPages)
  else
    let order := max (getOrder (nrPages * pageSize % wordSize)) mbaMinOrder
    if order > cfg.mbmaxOrder then none
    else out.virt.map fun virt => (virt, pa virt, 2 ^ order)

/-! ### Areas -/

def newMba (p : Ptr) (virt phys nrPages : Nat) : Mba :=
  { ptr := p, isStatic := false, tgid := mbDefTgid, phys := phys, virt := virt,
    pages := nrPages, pfnStart := phys / pageSize, pfnEnd := phys / pageSize + nrPages,
    nrMb := 0, totFreePages := nrPages, maxAvailablePages := nrPages, mbList := [] }

def Mbah.linkMba (h : Mbah) (mba : Mba) : Mbah :=
  { h with
    mbaList := h.mbaList ++ [mba]
    nrMba := h.nrMba + 1
    totPages := h.totPages + mba.pages
    totFreePages := h.totFreePages + mba.totFreePages
    maxAvailablePages := max h.maxAvailablePages mba.maxAvailablePages }

def mbAllocMba (cfg : Config) (out : PageOutcome) (pages : Nat) (h : Mbah) : Mbah × Option Ptr :=
  if pages = 0 then (h, none)
  else
    match out.mba with
    | none => (h, none)
    | some p =>
      match mbAllocPages cfg out pages with
      | none => (h, none)
      | some (virt, phys, nrPages) =>
        (h.linkMba (newMba p virt phys nrPages), some p)

/-- A static area is kept. -/
def mbFreeMba (h : Mbah) (mba : Mba) : Mbah × Int :=
  if mba.nrMb ≠ 0 then (h, -EFAULT)
  else if (h.mba? mba.ptr).isNone then (h, -EFAULT)
  else if mba.isStatic then (h, 0)
  else
    let mbaList := eraseKey Mba.ptr mba.ptr h.mbaList
    ({ h with
        mbaList := mbaList
        nrMba := wsub h.nrMba 1
        totFreePages := wsub h.totFreePages mba.totFreePages
        totPages := wsub h.totPages mba.pages
        maxAvailablePages :=
          mbaList.foldl (fun m entry => max m entry.maxAvailablePages) 0 }, 0)

/-! ### The walks over a block list -/

/-- With its variables `zs`, `ze` and `next`. `none` for `next` is the list head. -/
def searchZone (pages : Nat) : List Mb → Nat → Nat → Option Ptr → Nat × Nat × Option Ptr
  | [], zs, ze, next => (zs, ze, next)
  | entry :: rest, zs, _, _ =>
    if wsub entry.pfnStart zs ≥ pages then (zs, entry.pfnStart, some entry.ptr)
    else searchZone pages rest entry.pfnEnd entry.pfnStart (some entry.ptr)

/-- The zone start, the largest zone and the number of free pages so far. -/
def zoneWalk : List Mb → Nat → Nat → Nat → Nat × Nat × Nat
  | [], zs, nrPages, free => (zs, nrPages, free)
  | entry :: rest, zs, nrPages, free =>
    zoneWalk rest entry.pfnEnd (max (wsub entry.pfnStart zs) nrPages)
      (free + wsub entry.pfnStart zs)

def Mba.maxZone (a : Mba) : Nat :=
  let (zs, nrPages, _) := zoneWalk a.mbList a.pfnStart 0 0
  max (wsub a.pfnEnd zs) nrPages

def Mba.freeZones (a : Mba) : Nat :=
  let (zs, _, free) := zoneWalk a.mbList a.pfnStart 0 0
  free + wsub a.pfnEnd zs

/-! ### Blocks -/

inductive AllocMbError where
  | unknownArg
  | noAvailableSpace
  | somethingWrong
  | outOfMemory
deriving Repr, DecidableEq

def Mba.newMb (mba : Mba) (q : Ptr) (zs size : Nat) : Mb :=
  let phys := wadd mba.phys (wsub zs mba.pfnStart * pageSize)
  { ptr := q, mba := mba.ptr, pfnStart := zs, pfnEnd := zs + size / pageSize, phys := phys,
    virt := wadd mba.virt (wsub phys mba.phys), size := size, count := 0, creator := none,
    mbuList := [] }

/-- The largest zone is recomputed, the number of free pages is not. -/
def Mba.linkMb (mba : Mba) (next : Option Ptr) (mb : Mb) : Mba :=
  let mba' : Mba :=
    { mba with
      mbList := insertBefore Mb.ptr next mb mba.mbList
      nrMb := mba.nrMb + 1
      totFreePages := wsub mba.totFreePages (mb.size / pageSize) }
  { mba' with maxAvailablePages := mba'.maxZone }

def Mbah.linkMb (h : Mbah) (mba : Mba) (next : Option Ptr) (mb : Mb) : Mbah :=
  let h' := h.setMba (mba.linkMb next mb)
  { h' with
    totFreePages := wsub h.totFreePages (mb.size / pageSize)
    maxAvailablePages := h'.mbaList.foldl (fun m entry => max m entry.maxAvailablePages) 0 }

/-- A block in the first hole of an area that is wide enough. -/
def mbAllocMb (h : Mbah) (p : Ptr) (size : Nat) (slab : Option Ptr) :
    Except AllocMbError (Mbah × Mb) :=
  match h.mba? p with
  | none => .error .unknownArg
  | some mba =>
    if size = 0 then .error .unknownArg
    else
      let size := pageAlign size
      let pages := size / pageSize
      if mba.maxAvailablePages < pages then .error .noAvailableSpace
      else
        let (zs, ze, next) := searchZone pages mba.mbList mba.pfnStart mba.pfnStart none
        -- After the loop `zs >= ze` tells that no zone in front of a block was taken.
        let (ze, next) := if zs ≥ ze then (mba.pfnEnd, none) else (ze, next)
        if wsub ze zs < pages then .error .somethingWrong
        else
          match slab with
          | none => .error .outOfMemory
          | some q =>
            let mb := mba.newMb q zs size
            .ok (h.linkMb mba next mb, mb)

def Mba.unlinkMb (mba : Mba) (p : Ptr) : Mba :=
  { mba with mbList := eraseKey Mb.ptr p mba.mbList, nrMb := wsub mba.nrMb 1 }

def Mba.recount (mba : Mba) : Mba :=
  { mba with totFreePages := mba.freeZones, maxAvailablePages := mba.maxZone }

@[simp] lemma Mba.unlinkMb_ptr (mba : Mba) (p : Ptr) : (mba.unlinkMb p).ptr = mba.ptr := rfl

def Mbah.recountMba (h : Mbah) (old new : Mba) : Mbah :=
  { h.setMba new with
    totFreePages := wsub h.totFreePages old.totFreePages + new.totFreePages
    maxAvailablePages := max h.maxAvailablePages new.maxAvailablePages }

/-- `mb_free_mb`. An empty area that is not static goes back to the kernel, otherwise the totals are
recomputed. -/
def mbFreeMb (h : Mbah) (p : Ptr) : Mbah × Int :=
  match h.mb? p with
  | none => (h, -EFAULT)
  | some mb =>
    if mb.count ≠ 0 then (h, -EINVAL)
    else
      match h.mba? mb.mba with
      | none => (h, -EFAULT)
      | some mba =>
        if (findKey Mb.ptr p mba.mbList).isNone then (h, -EFAULT)
        else
          let mba' := mba.unlinkMb p
          if mba'.nrMb = 0 ∧ mba'.isStatic = false then mbFreeMba (h.setMba mba') mba'
          else (h.recountMba mba mba'.recount, 0)

def mbUpdateMbah (h : Mbah) : Mbah :=
  { h with
    totFreePages := h.mbaList.foldl (fun free mba => free + mba.freeZones) 0
    maxAvailablePages := h.mbaList.foldl (fun m mba => max m mba.maxZone) 0 }

end Wm8850.MemBlock
