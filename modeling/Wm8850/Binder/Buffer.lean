import Wm8850.Lib.Keyed
import Wm8850.Lib.SearchTree
import Wm8850.Lib.Word
import Wm8850.Lib.Reach

/-! # The transaction buffers of a process

The buffers of a process lie in one area, each header in front of its data. The headers are linked
by address (`proc->buffers`), and a buffer ends where the next header begins. Free buffers are in
the tree `proc->free_buffers` by size, allocated ones in `proc->allocated_buffers` by address. Pages
are populated when needed (`binder_update_page_range`).

A pointer to a buffer is its address. A new header has whatever is in memory (`stale`). The
red-black trees are the parameter `rb`, the answers of the page allocator are in `PageEnv`. A
`BUG_ON`, a pointer to a header that is not there and the release of a page that is not populated
stop a call with a `Fault`.

`zap_page_range`, the locks of the address space and the loop of `binder_mmap` for a cache with
aliases are left out. -/

namespace Wm8850.Binder

open Lib

def EPERM : Int := 1
def ENOMEM : Int := 12
def EBUSY : Int := 16

def pageSize : Nat := 4096

def sz4M : Nat := 0x400000

/-- `sizeof(struct binder_buffer)`. -/
def bufferHeader : Nat := 40

/-- The header of a buffer, at its address. -/
structure Buffer where
  addr : Nat
  free : Bool
  asyncTransaction : Bool
  transaction : Option Nat
  dataSize : Nat
  offsetsSize : Nat

def Buffer.data (b : Buffer) : Nat := b.addr + bufferHeader

/-- `pages` says which pages are populated, `vma` whether the area is mapped in user space. -/
structure Proc where
  buffer : Nat
  userBufferOffset : Nat
  bufferSize : Nat
  buffers : List Buffer
  freeBuffers : BinaryTree Nat
  allocatedBuffers : BinaryTree Nat
  freeAsyncSpace : Nat
  pages : Nat → Bool
  vma : Bool

/-- Where the kernel stops: a `BUG`, or an access outside the structures. -/
inductive Fault where
  | bug
  | pageBug
  | freeNull
  | wildPointer
deriving DecidableEq

def bugOn (c : Bool) : Except Fault Unit := if c then .error .bug else .ok ()

lemma ok_bind {α β : Type} (x : α) (f : α → Except Fault β) : (Except.ok x >>= f) = f x := rfl

/-- The answers of the kernel in one call, for each page. -/
structure PageEnv where
  mm : Bool
  allocPage : Nat → Bool
  mapVmArea : Nat → Bool
  vmInsertPage : Nat → Bool

def alignPtr (x : Nat) : Nat := wadd x 3 / 4 * 4

def pageMask (x : Nat) : Nat := x / pageSize * pageSize

def pageAlign (x : Nat) : Nat := pageMask (wadd x (pageSize - 1))

def getBuffer (bs : List Buffer) (a : Nat) : Except Fault Buffer :=
  match findKey Buffer.addr a bs with
  | some b => .ok b
  | none => .error .wildPointer

/-- The room up to the next header, or to the end of the area. -/
def binderBufferSize (p : Proc) (a : Nat) : Nat :=
  match nextOf Buffer.addr a p.buffers with
  | none => wsub (p.buffer + p.bufferSize) (a + bufferHeader)
  | some next => wsub next.addr (a + bufferHeader)

/-! ### The two trees -/

def linkFree (p : Proc) (new : Nat) : BinaryTree Nat → Except Fault (BinaryTree Nat)
  | .nil => .ok (.node new .nil .nil)
  | .node a l r => do
    let b ← getBuffer p.buffers a
    bugOn (!b.free)
    if binderBufferSize p new < binderBufferSize p a then
      return .node a (← linkFree p new l) r
    else
      return .node a l (← linkFree p new r)

def binderInsertFreeBuffer (rb : Rebalance Nat) (p : Proc) (new : Nat) : Except Fault Proc := do
  let b ← getBuffer p.buffers new
  bugOn (!b.free)
  let t ← linkFree p new p.freeBuffers
  return { p with freeBuffers := rb.insertColor new t }

def linkAllocated (p : Proc) (new : Nat) : BinaryTree Nat → Except Fault (BinaryTree Nat)
  | .nil => .ok (.node new .nil .nil)
  | .node a l r => do
    let b ← getBuffer p.buffers a
    bugOn b.free
    if new < a then
      return .node a (← linkAllocated p new l) r
    else if a < new then
      return .node a l (← linkAllocated p new r)
    else
      .error .bug

def binderInsertAllocatedBuffer (rb : Rebalance Nat) (p : Proc) (new : Nat) :
    Except Fault Proc := do
  let b ← getBuffer p.buffers new
  bugOn b.free
  let t ← linkAllocated p new p.allocatedBuffers
  return { p with allocatedBuffers := rb.insertColor new t }

def lookupAllocated (p : Proc) (kernPtr : Nat) : BinaryTree Nat → Except Fault (Option Nat)
  | .nil => .ok none
  | .node a l r => do
    let b ← getBuffer p.buffers a
    bugOn b.free
    if kernPtr < a then lookupAllocated p kernPtr l
    else if a < kernPtr then lookupAllocated p kernPtr r
    else return some a

def binderBufferLookup (p : Proc) (userPtr : Nat) : Except Fault (Option Nat) :=
  lookupAllocated p (wsub (wsub userPtr p.userBufferOffset) bufferHeader) p.allocatedBuffers

/-! ### Pages -/

def pageIndex (base pageAddr : Nat) : Nat := (pageAddr - base) / pageSize

def freeRange (base start : Nat) : Nat → (Nat → Bool) → Except Fault (Nat → Bool)
  | 0, pages => .ok pages
  | n + 1, pages =>
    let i := pageIndex base (start + n * pageSize)
    if pages i then freeRange base start n (Function.update pages i false)
    else .error .freeNull

/-- With the pages that are left and done. A failure goes into the loop at `free_range`. -/
def allocRange (env : PageEnv) (base start : Nat) :
    Nat → Nat → (Nat → Bool) → Except Fault (Int × (Nat → Bool))
  | 0, _, pages => .ok (0, pages)
  | todo + 1, done, pages =>
    let pageAddr := start + done * pageSize
    let i := pageIndex base pageAddr
    if pages i then .error .pageBug
    else if env.allocPage pageAddr && env.mapVmArea pageAddr && env.vmInsertPage pageAddr then
      allocRange env base start todo (done + 1) (Function.update pages i true)
    else do
      let pages ← freeRange base start done pages
      return (- ENOMEM, pages)

/-- The argument `vma` is set in `binder_mmap` only. -/
def binderUpdatePageRange (env : PageEnv) (p : Proc) (allocate : Bool) (start last : Nat)
    (vma : Bool) : Except Fault (Int × (Nat → Bool)) :=
  if last ≤ start then .ok (0, p.pages)
  else if !allocate then do
    let pages ← freeRange p.buffer start ((last - start) / pageSize) p.pages
    return (- ENOMEM, pages)
  else if !(vma || (env.mm && p.vma)) then .ok (- ENOMEM, p.pages)
  else allocRange env p.buffer start ((last - start + (pageSize - 1)) / pageSize) 0 p.pages

/-! ### Allocation -/

/-- It returns `best_fit`, and whether `n` is not `NULL` behind the loop. -/
def bestFit (p : Proc) (size : Nat) :
    BinaryTree Nat → Option Nat → Except Fault (Option Nat × Bool)
  | .nil, best => .ok (best, false)
  | .node a l r, best => do
    let b ← getBuffer p.buffers a
    bugOn (!b.free)
    if size < binderBufferSize p a then bestFit p size l (some a)
    else if binderBufferSize p a < size then bestFit p size r best
    else return (some a, true)

/-- The second half of `binder_alloc_buf`, when the pages are there. -/
def takeBuffer (rb : Rebalance Nat) (stale : Buffer) (p : Proc) (a size bufferSize : Nat)
    (dataSize offsetsSize : Nat) (isAsync : Bool) : Except Fault Proc := do
  let p := { p with freeBuffers := rb.erase a p.freeBuffers
                    buffers := updateKey Buffer.addr a ({ · with free := false }) p.buffers }
  let p ← binderInsertAllocatedBuffer rb p a
  let p ←
    if bufferSize ≠ size then
      let new := a + bufferHeader + size
      binderInsertFreeBuffer rb
        { p with buffers :=
            insertAfter Buffer.addr a { stale with addr := new, free := true } p.buffers } new
    else pure p
  return { p with
    buffers := updateKey Buffer.addr a
      ({ · with dataSize := dataSize, offsetsSize := offsetsSize, asyncTransaction := isAsync })
      p.buffers
    freeAsyncSpace :=
      if isAsync then wsub p.freeAsyncSpace (wadd size bufferHeader) else p.freeAsyncSpace }

def binderAllocBuf (rb : Rebalance Nat) (env : PageEnv) (stale : Buffer) (p : Proc)
    (dataSize offsetsSize : Nat) (isAsync : Bool) : Except Fault (Option Nat × Proc) :=
  let size := wadd (alignPtr dataSize) (alignPtr offsetsSize)
  if !p.vma then .ok (none, p)
  else if size < dataSize ∨ size < offsetsSize then .ok (none, p)
  else if isAsync ∧ p.freeAsyncSpace < wadd size bufferHeader then .ok (none, p)
  else do
    let found ← bestFit p size p.freeBuffers none
    match found.1 with
    | none => return (none, p)
    | some a =>
      let room := binderBufferSize p a
      let hasPageAddr := pageMask (wadd (a + bufferHeader) room)
      let bufferSize :=
        if found.2 then room
        else if wadd (wadd size bufferHeader) 4 ≥ room then size  -- no room for other buffers
        else wadd size bufferHeader
      let endPageAddr := min (pageAlign (wadd (a + bufferHeader) bufferSize)) hasPageAddr
      let done ←
        binderUpdatePageRange env p true (pageAlign (a + bufferHeader)) endPageAddr false
      if done.1 ≠ 0 then return (none, { p with pages := done.2 })
      else
        let p ← takeBuffer rb stale { p with pages := done.2 } a size bufferSize dataSize
          offsetsSize isAsync
        return (some a, p)

/-! ### Freeing -/

def bufferStartPage (a : Nat) : Nat := pageMask a

def bufferEndPage (a : Nat) : Nat := pageMask (a + bufferHeader - 1)

/-- The first page of a header goes with it if the headers beside it do not use it. -/
def freePageStart (a prev : Nat) (nextStart : Option Nat) : Bool :=
  decide (bufferEndPage prev ≠ bufferStartPage a ∧
    ¬(nextStart = some (bufferEndPage a) ∧ nextStart = some (bufferStartPage a)))

def freePageEnd (a prev : Nat) (nextStart : Option Nat) : Bool :=
  decide (¬(bufferEndPage prev = bufferStartPage a ∧ bufferEndPage prev = bufferEndPage a) ∧
    nextStart ≠ some (bufferEndPage a))

def freeHeaderPages (env : PageEnv) (p : Proc) (a prev : Nat) (nextStart : Option Nat) :
    Except Fault (Nat → Bool) :=
  let atStart := freePageStart a prev nextStart
  let atEnd := freePageEnd a prev nextStart
  if atStart || atEnd then do
    let done ← binderUpdatePageRange env p false
      (if atStart then bufferStartPage a else bufferEndPage a)
      ((if atEnd then bufferEndPage a else bufferStartPage a) + pageSize) false
    return done.2
  else return p.pages

def binderDeleteFreeBuffer (env : PageEnv) (p : Proc) (a : Nat) : Except Fault Proc :=
  match prevOf Buffer.addr a p.buffers with
  | none => .error .bug
  | some prev => do
    bugOn (!prev.free)
    let pages ← freeHeaderPages env p a prev.addr
      ((nextOf Buffer.addr a p.buffers).map fun next => bufferStartPage next.addr)
    return { p with buffers := eraseKey Buffer.addr a p.buffers, pages := pages }

def mergeNext (rb : Rebalance Nat) (env : PageEnv) (p : Proc) (a : Nat) : Except Fault Proc :=
  match nextOf Buffer.addr a p.buffers with
  | none => .ok p
  | some next =>
    if next.free then
      binderDeleteFreeBuffer env { p with freeBuffers := rb.erase next.addr p.freeBuffers }
        next.addr
    else .ok p

def mergePrev (rb : Rebalance Nat) (env : PageEnv) (p : Proc) (a : Nat) :
    Except Fault (Nat × Proc) :=
  match prevOf Buffer.addr a p.buffers with
  | none => .ok (a, p)
  | some prev =>
    if prev.free then do
      let p ← binderDeleteFreeBuffer env p a
      return (prev.addr, { p with freeBuffers := rb.erase prev.addr p.freeBuffers })
    else .ok (a, p)

def binderFreeBuf (rb : Rebalance Nat) (env : PageEnv) (p : Proc) (a : Nat) :
    Except Fault Proc := do
  let b ← getBuffer p.buffers a
  let bufferSize := binderBufferSize p a
  let size := wadd (alignPtr b.dataSize) (alignPtr b.offsetsSize)
  bugOn b.free
  bugOn (bufferSize < size)
  bugOn b.transaction.isSome
  bugOn (a < p.buffer)
  bugOn (p.buffer + p.bufferSize < a)
  let space :=
    if b.asyncTransaction then wadd p.freeAsyncSpace (wadd size bufferHeader) else p.freeAsyncSpace
  let done ← binderUpdatePageRange env p false (pageAlign (a + bufferHeader))
    (pageMask (wadd (a + bufferHeader) bufferSize)) false
  let p := { p with freeAsyncSpace := space
                    pages := done.2
                    allocatedBuffers := rb.erase a p.allocatedBuffers
                    buffers := updateKey Buffer.addr a ({ · with free := true }) p.buffers }
  let p ← mergeNext rb env p a
  let merged ← mergePrev rb env p a
  binderInsertFreeBuffer rb merged.2 merged.1

/-! ### The area -/

/-- The area that `binder_mmap` gets. -/
structure Vma where
  vmStart : Nat
  vmEnd : Nat
  forbidden : Bool

/-- The area is cut to four megabytes. -/
def Vma.size (v : Vma) : Nat := min (v.vmEnd - v.vmStart) sz4M

def binderMmap (rb : Rebalance Nat) (env : PageEnv) (stale : Buffer) (p : Proc) (v : Vma)
    (area : Option Nat) (kzalloc : Bool) : Except Fault (Int × Proc) :=
  if v.forbidden then .ok (- EPERM, p)
  else if p.buffer ≠ 0 then .ok (- EBUSY, p)
  else match area with
    | none => .ok (- ENOMEM, p)
    | some addr =>
      let p := { p with userBufferOffset := wsub v.vmStart addr }
      if !kzalloc then .ok (- ENOMEM, p)
      else do
        let p := { p with buffer := addr, pages := fun _ => false, bufferSize := v.size }
        let done ← binderUpdatePageRange env p true addr (addr + pageSize) true
        if done.1 ≠ 0 then return (- ENOMEM, { p with buffer := 0 })
        else
          let p ← binderInsertFreeBuffer rb
            { p with pages := done.2, buffers := [{ stale with addr := addr, free := true }] } addr
          return (0, { p with freeAsyncSpace := p.bufferSize / 2, vma := true })

/-! ### Runs after `binder_mmap`

A call of `binder_free_buf` is for an allocated buffer whose transaction the caller has set to
`NULL`. In between, any transaction may be written into a buffer, and the mapping may be closed. -/

/-- What `mm` guarantees of an area and `get_vm_area` of its kernel address. -/
structure AreaOk (base : Nat) (v : Vma) : Prop where
  base_mod : base % pageSize = 0
  size_mod : (v.vmEnd - v.vmStart) % pageSize = 0
  nonempty : v.vmStart < v.vmEnd
  end_lt : base + v.size < wordSize

/-- A process right after a successful `binder_mmap`. -/
def Mapped (rb : Rebalance Nat) (base : Nat) (v : Vma) (p : Proc) : Prop :=
  ∃ (env : PageEnv) (stale : Buffer) (p₀ : Proc) (kzalloc : Bool),
    p₀.freeBuffers = .nil ∧ p₀.allocatedBuffers = .nil ∧
      binderMmap rb env stale p₀ v (some base) kzalloc = .ok (0, p)

/-- What a run does with the buffers of a process. -/
inductive BufferEvent where
  | alloc (dataSize offsetsSize : Nat) (isAsync : Bool) (env : PageEnv) (stale : Buffer)
  | free (a : Nat) (env : PageEnv)
  | setTransaction (a : Nat) (t : Option Nat)
  | vmaClose

/-- A header of a buffer in use. -/
def Proc.Live (p : Proc) (a : Nat) : Prop := ∃ b ∈ p.buffers, b.addr = a ∧ b.free = false

def Proc.setTransaction (p : Proc) (a : Nat) (t : Option Nat) : Proc :=
  { p with buffers := updateKey Buffer.addr a ({ · with transaction := t }) p.buffers }

def BufferEvent.Valid : BufferEvent → Proc → Prop
  | .free a _, p => p.Live a
  | .setTransaction a _, p => p.Live a
  | _, _ => True

def BufferEvent.exec (rb : Rebalance Nat) : BufferEvent → Proc → Except Fault Proc
  | .alloc dataSize offsetsSize isAsync env stale, p =>
    (binderAllocBuf rb env stale p dataSize offsetsSize isAsync).map Prod.snd
  | .free a env, p => binderFreeBuf rb env (p.setTransaction a none) a
  | .setTransaction a t, p => .ok (p.setTransaction a t)
  | .vmaClose, p => .ok { p with vma := false }

/-- A valid event that meets no fault. -/
def Proc.Step (rb : Rebalance Nat) (e : BufferEvent) (p q : Proc) : Prop :=
  e.Valid p ∧ e.exec rb p = .ok q

end Wm8850.Binder
