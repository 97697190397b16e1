import Wm8850.MemBlock.Area

/-! # The operations of the driver

The kernel interface, the file operations and the ioctl commands that change users. Every operation
returns the new state and the return value of the source. `tgid` and `name` of an ioctl or `mb_mmap`
are those of the open file; a `NULL` name is `none`. -/

namespace Wm8850.MemBlock

open Lib

inductive MbFind where
  | virt
  | phys
deriving Repr, DecidableEq

def Mba.searchAddr (a : Mba) : MbFind → Nat
  | .virt => a.virt
  | .phys => a.phys

def Mb.searchAddr (mb : Mb) : MbFind → Nat
  | .virt => mb.virt
  | .phys => mb.phys

/-- The range test of both searches, `addr < saddr || addr > eaddr`. The end address wraps
as the pointer does. -/
def Mba.outOfRange (a : Mba) (addr : Nat) (type : MbFind) : Bool :=
  let saddr := a.searchAddr type
  let eaddr := wadd saddr (a.pages * pageSize)
  decide (addr < saddr) || decide (addr > eaddr)

def mbFindMb (h : Mbah) (addr : Nat) (type : MbFind) : Option Mb :=
  if addr = 0 then none
  else
    h.mbaList.findSome? fun mba =>
      if mba.outOfRange addr type then none
      else
        mba.mbList.find? fun mb =>
          decide (mb.searchAddr type ≤ addr) &&
            decide (addr < wadd (mb.searchAddr type) mb.size)

/-- The conditions of `mb_find_mbu`. -/
structure MbuFind where
  user : Bool := false
  virt : Bool := false
  phys : Bool := false
  all : Bool := false
  creator : Bool := false
  mmap : Bool := false
  getput : Bool := false
deriving Repr, DecidableEq

def MbuFind.addrmask (st : MbuFind) : Bool := st.user || st.virt || st.phys

def MbuFind.skipsMba (st : MbuFind) (addr : Nat) (mba : Mba) : Bool :=
  (st.virt || st.phys) && mba.outOfRange addr (if st.phys then .phys else .virt)

def MbuFind.skipsMb (st : MbuFind) (addr : Nat) (mb : Mb) : Bool :=
  (st.phys && addr != mb.phys) || (st.virt && addr != mb.virt)

/-- One turn of the innermost loop of `mb_find_mbu`. `none` goes on, `some r` is
`goto leave` with `mbu = r`, and `r` is `none` when the creator is `NULL`. -/
def MbuFind.visit (st : MbuFind) (addr : Nat) (tgid : Int) (mb : Mb) (mbu : MbUser) :
    Option (Option MbUser) :=
  if mbu.tgid ≠ tgid ∧ tgid ≠ mbDefTgid then none
  else if st.user ∧ addr ≠ mbu.addr then none
  else if st.all then some (some mbu)
  else if st.creator then some mb.creatorMbu
  else if st.mmap ∧ mbu.size ≠ 0 then some (some mbu)
  else if st.getput ∧ mbu.addr ≠ 0 ∧ mbu.size = 0 then some (some mbu)
  else none

/-- The first user that passes the tests, or the creator in its place. -/
def mbFindMbu (h : Mbah) (addr : Nat) (tgid : Int) (st : MbuFind) : Option MbUser :=
  if addr = 0 ∨ st.addrmask = false then none
  else
    (h.mbaList.findSome? fun mba =>
      if st.skipsMba addr mba then none
      else
        mba.mbList.findSome? fun mb =>
          if st.skipsMb addr mb then none
          else mb.mbuList.findSome? fun mbu => st.visit addr tgid mb mbu).join

/-! ### The kernel interface -/

/-- The addresses that the allocators return. -/
structure AllocOutcome where
  mbu : Option Ptr
  mb : Option Ptr
  page : PageOutcome
deriving Repr, DecidableEq

def placeMb (h : Mbah) (p : Ptr) (size : Nat) (tgid : Int) (name : Name) (u : Ptr)
    (slab : Option Ptr) : Mbah × Nat :=
  match mbAllocMb h p size slab with
  | .error _ => (h, 0)
  | .ok (h', mb) =>
    let mbu : MbUser :=
      { ptr := u, mb := mb.ptr, tgid := tgid, addr := 0, size := mb.size,
        theUser := copyName name }
    (h'.updMb mb.ptr fun m => { m.addUser mbu with creator := some u }, mb.phys)

/-- The physical address of a new block, or 0. -/
def mbDoAlloc (cfg : Config) (h : Mbah) (size : Nat) (tgid : Int) (name : Option Name)
    (out : AllocOutcome) : Mbah × Nat :=
  match name with
  | none => (h, 0)
  | some name =>
    let size := pageAlign size
    let pages := size / pageSize
    if pages = 0 then (h, 0)
    else
      match out.mbu with
      | none => (h, 0)
      | some u =>
        if pages > h.maxAvailablePages then
          if cfg.dynamicAllocate then
            match mbAllocMba cfg out.page pages h with
            | (h', none) => (h', 0)
            | (h', some p) => placeMb h' p size tgid name u out.mb
          else (h, 0)
        else
          match h.mbaList.find? fun entry => decide (entry.maxAvailablePages ≥ pages) with
          | none => (h, 0)
          | some mba => placeMb h mba.ptr size tgid name u out.mb

/-- By the block of the address, or else by the linear mapping. -/
def mbDoPhysToVirt (h : Mbah) (phys : Nat) : Nat :=
  match mbFindMb h phys .phys with
  | some mb => wadd mb.virt (wsub phys mb.phys)
  | none => va phys

/-- By the block of the address, or else by the linear mapping. -/
def mbDoVirtToPhys (h : Mbah) (virt : Nat) : Nat :=
  match mbFindMb h virt .virt with
  | some mb => wadd mb.phys (wsub virt mb.virt)
  | none => pa virt

/-- Drops the hold of the creator. -/
def mbDoFree (h : Mbah) (addr : Nat) (tgid : Int) (name : Option Name) : Mbah × Int :=
  if addr = 0 ∨ name = none then (h, -EINVAL)
  else
    match mbFindMbu h addr tgid { phys := true, creator := true } with
    | none => (h, -EINVAL)
    | some mbu =>
      match h.mb? mbu.mb with
      | none => (h, -EINVAL)
      | some mb =>
        let h' := h.updMb mb.ptr fun m => { m.delUser mbu.ptr with creator := none }
        if mb.count - 1 ≠ 0 then (h', 0) else mbFreeMb h' mb.ptr

/-- The block that `mb_do_get` holds: for a task the block of one of its mappings, for the
kernel the block that contains a physical address. -/
def getTarget (h : Mbah) (addr : Nat) (tgid : Int) : Option Mb :=
  if tgid ≠ mbDefTgid then
    (mbFindMbu h addr tgid { user := true, mmap := true }).bind fun mbu => h.mb? mbu.mb
  else mbFindMb h addr .phys

/-- Adds a hold to the block at an address. -/
def mbDoGet (h : Mbah) (addr : Nat) (tgid : Int) (name : Option Name) (slab : Option Ptr) :
    Mbah × Int :=
  match name with
  | none => (h, -EINVAL)
  | some name =>
    if addr = 0 then (h, -EINVAL)
    else
      match slab with
      | none => (h, -ENOMEM)
      | some u =>
        match getTarget h addr tgid with
        | none => (h, -EFAULT)
        | some mb =>
          (h.updMb mb.ptr (Mb.addUser
            { ptr := u, mb := mb.ptr, tgid := tgid, addr := addr, size := 0,
              theUser := copyName name }), 0)

/-- The common end of `mb_do_put` and of `MBIO_PUT_BY_PHYS`. -/
def putMbu (h : Mbah) (found : Option MbUser) : Mbah × Int :=
  match found with
  | none => (h, -EINVAL)
  | some mbu =>
    match h.mb? mbu.mb with
    | none => (h, -EINVAL)
    | some mb =>
      if mb.count = 0 then (h, -EPERM)
      else
        let h' := h.updMb mb.ptr (Mb.delUser mbu.ptr)
        if mb.count - 1 = 0 then ((mbFreeMb h' mb.ptr).1, 0) else (h', 0)

/-- Drops a hold that a get has added. -/
def mbDoPut (h : Mbah) (addr : Nat) (tgid : Int) (name : Option Name) : Mbah × Int :=
  if addr = 0 ∨ name = none then (h, -EINVAL)
  else if tgid = mbDefTgid then
    putMbu h (mbFindMbu h addr tgid { phys := true, getput := true })
  else putMbu h (mbFindMbu h addr tgid { user := true, getput := true })

/-! ### The ioctl commands that change users -/

/-- The mapping at a user address goes, if there is one, and then the block. The count is not tested
in between.
-/
def mbioFree (h : Mbah) (value : Nat) (tgid : Int) (name : Name) : Mbah × Int × Option Nat :=
  match mbFindMbu h value tgid { user := true, mmap := true } with
  | some mbu =>
    match h.mb? mbu.mb with
    | none => (h, -EFAULT, none)
    | some mb =>
      let (h', ret) := mbDoFree (h.updMb mb.ptr (Mb.delUser mbu.ptr)) mb.phys tgid (some name)
      (h', ret, some mbu.size)
  | none =>
    let (h', ret) := mbDoFree h value tgid (some name)
    (h', ret, some value)

/-- `MBIO_UNMAP`: drop the mapping at a user address. A count that reaches zero is only
reported. -/
def mbioUnmap (h : Mbah) (value : Nat) (tgid : Int) : Mbah × Int × Option Nat :=
  match mbFindMbu h value tgid { user := true, mmap := true } with
  | none => (h, -EFAULT, none)
  | some mbu =>
    match h.mb? mbu.mb with
    | none => (h, -EFAULT, none)
    | some mb => (h.updMb mb.ptr (Mb.delUser mbu.ptr), 0, some mbu.size)

def mbioGetByPhys (h : Mbah) (value : Nat) (tgid : Int) (name : Name) (slab : Option Ptr) :
    Mbah × Int :=
  if value = 0 ∨ tgid = mbDefTgid then (h, -EINVAL)
  else
    match slab with
    | none => (h, -ENOMEM)
    | some u =>
      match mbFindMb h value .phys with
      | none => (h, -EFAULT)
      | some mb =>
        (h.updMb mb.ptr (Mb.addUser
          { ptr := u, mb := mb.ptr, tgid := tgid, addr := value, size := 0,
            theUser := copyName name }), 0)

def mbioPutByPhys (h : Mbah) (value : Nat) (tgid : Int) : Mbah × Int :=
  if value = 0 ∨ tgid = mbDefTgid then (h, -EINVAL)
  else putMbu h (mbFindMbu h value tgid { phys := true, getput := true })

/-! ### File operations -/

structure Vma where
  vmStart : Nat
  vmEnd : Nat
  vmPgoff : Nat
deriving Repr, DecidableEq

/-- `remap` is the answer of `io_remap_pfn_range`. An offset below the size reserved from I/O leaves
the blocks alone. -/
def mbMmap (cfg : Config) (h : Mbah) (tgid : Int) (name : Name) (vma : Vma)
    (slab : Option Ptr) (remap : Bool) : Mbah × Int :=
  let off := vma.vmPgoff * pageSize % wordSize
  let len := wsub vma.vmEnd vma.vmStart
  if cfg.reserveFromIo ∧ vma.vmPgoff ≤ h.totStaticPages then
    if wadd len off > h.totStaticPages * pageSize % wordSize then (h, -EINVAL)
    else if remap then (h, 0) else (h, -EAGAIN)
  else
    match slab with
    | none => (h, -ENOMEM)
    | some u =>
      match mbFindMb h off .phys with
      | none => (h, -EINVAL)
      | some mb =>
        if wadd len off > pageAlign (mb.phys + mb.size) then (h, -EINVAL)
        else if !remap then (h, -EAGAIN)
        else
          (h.updMb mb.ptr (Mb.addUser
            { ptr := u, mb := mb.ptr, tgid := tgid, addr := vma.vmStart, size := len,
              theUser := copyName name }), 0)

def mbOpen (s : State) (tgid : Int) (comm : Name) (slab : Bool) : State × Int :=
  if s.mbtiList.any fun mbti => decide (mbti.tgid = tgid) then
    ({ s with mbtiList := updateKey MbTaskInfo.tgid tgid
                (fun mbti => { mbti with count := mbti.count + 1 }) s.mbtiList }, 0)
  else if !slab then (s, -EFAULT)
  else
    ({ s with mbtiList :=
        s.mbtiList ++ [{ tgid := tgid, count := 1, taskName := copyName comm }] }, 0)

end Wm8850.MemBlock
