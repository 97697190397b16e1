import Wm8850.Binder.Buffer

/-! # Nodes, and the references of other processes to them

A `binder_node` is an object of its owner, a `binder_ref` the handle of a process for a node. Nodes
are found by the user's pointer (`proc->nodes`), references by descriptor (`refs_by_desc`) or by
node (`refs_by_node`). A node lists its references and counts the strong ones
(`internal_strong_refs`); `local_strong_refs` and `local_weak_refs` count users inside the driver.

Objects are in `Heap` by address. An access to a freed object stops a call with `Fault.wildPointer`.
Counters are `int`s that wrap. What `kzalloc` gives is an argument, the red-black trees are the
parameter `rb`. Statistics, messages, death notifications and `binder_dead_nodes` are left out. -/

namespace Wm8850.Binder

open Lib Function

def EINVAL : Int := 22

/-- The lists of work: `thread->todo`, `proc->todo` and `node->async_todo`. -/
inductive Todo where
  | thread (t : Nat)
  | proc (p : Nat)
  | async (n : Nat)
deriving DecidableEq

inductive Work where
  | node (a : Nat)
  | transaction (t : Nat)
  | transactionComplete (c : Nat)
deriving DecidableEq

/-- `struct binder_node`. The field `work` has the list that `work.entry` is on, and `refs` the
addresses of the references. -/
structure Node where
  proc : Option Nat
  ptr : Nat
  cookie : Nat
  refs : List Nat
  internalStrongRefs : Int
  localWeakRefs : Int
  localStrongRefs : Int
  hasStrongRef : Bool
  hasWeakRef : Bool
  hasAsyncTransaction : Bool
  acceptFds : Bool
  minPriority : Nat
  work : Option Todo
deriving DecidableEq

/-- A `struct binder_ref`. Processes and nodes are addresses. -/
structure Ref where
  proc : Nat
  node : Nat
  desc : Nat
  strong : Int
  weak : Int
deriving DecidableEq

def Node.localRefs (n : Node) (strong : Bool) : Int :=
  if strong then n.localStrongRefs else n.localWeakRefs

def Ref.count (ref : Ref) (strong : Bool) : Int := if strong then ref.strong else ref.weak

structure ProcTrees where
  nodes : BinaryTree Nat
  refsByDesc : BinaryTree Nat
  refsByNode : BinaryTree Nat

/-- The objects at their addresses, and the lists of work. -/
structure Heap where
  nodes : Nat → Option Node
  refs : Nat → Option Ref
  procs : Nat → ProcTrees
  contextMgrNode : Option Nat
  todo : Todo → List Work

namespace Heap

def node (h : Heap) (a : Nat) : Except Fault Node :=
  match h.nodes a with
  | some n => .ok n
  | none => .error .wildPointer

def ref (h : Heap) (r : Nat) : Except Fault Ref :=
  match h.refs r with
  | some ref => .ok ref
  | none => .error .wildPointer

def setNode (h : Heap) (a : Nat) (n : Node) : Heap :=
  { h with nodes := update h.nodes a (some n) }

def setRef (h : Heap) (r : Nat) (ref : Ref) : Heap :=
  { h with refs := update h.refs r (some ref) }

def setTrees (h : Heap) (p : Nat) (t : ProcTrees) : Heap :=
  { h with procs := update h.procs p t }

def freeNode (h : Heap) (a : Nat) : Heap := { h with nodes := update h.nodes a none }

def freeRef (h : Heap) (r : Nat) : Heap := { h with refs := update h.refs r none }

def addTail (h : Heap) (w : Work) (l : Todo) : Heap :=
  { h with todo := update h.todo l (h.todo l ++ [w]) }

def delWork (h : Heap) (a : Nat) (n : Node) : Heap :=
  match n.work with
  | none => h
  | some l => { h.setNode a { n with work := none } with
      todo := update h.todo l ((h.todo l).erase (.node a)) }

def addWork (h : Heap) (a : Nat) (n : Node) (l : Todo) : Heap :=
  (h.setNode a { n with work := some l }).addTail (.node a) l

end Heap

/-! ### The loops over a tree -/

def searchTree (key : Nat → Except Fault Nat) (k : Nat) :
    BinaryTree Nat → Except Fault (Option Nat)
  | .nil => .ok none
  | .node a l r => do
    let ka ← key a
    if k < ka then searchTree key k l
    else if ka < k then searchTree key k r
    else return some a

/-- No caller comes with a key that is in the tree, except for the `BUG` of
`binder_get_ref_for_node`. -/
def linkTree (key : Nat → Except Fault Nat) (k new : Nat) :
    BinaryTree Nat → Except Fault (BinaryTree Nat)
  | .nil => .ok (.node new .nil .nil)
  | .node a l r => do
    let ka ← key a
    if k < ka then return .node a (← linkTree key k new l) r
    else if ka < k then return .node a l (← linkTree key k new r)
    else .error .bug

def Heap.ptrOf (h : Heap) (a : Nat) : Except Fault Nat := do return (← h.node a).ptr

def Heap.descOf (h : Heap) (r : Nat) : Except Fault Nat := do return (← h.ref r).desc

def Heap.nodeOf (h : Heap) (r : Nat) : Except Fault Nat := do return (← h.ref r).node

/-! ### Nodes -/

def binderNewNode (rb : Rebalance Nat) (h : Heap) (proc ptr cookie : Nat) (kzalloc : Option Nat) :
    Except Fault (Option Nat × Heap) := do
  match ← searchTree h.ptrOf ptr (h.procs proc).nodes, kzalloc with
  | none, some new =>
    let nodes ← linkTree h.ptrOf ptr new (h.procs proc).nodes
    let h := h.setTrees proc { h.procs proc with nodes := rb.insertColor new nodes }
    return (some new, h.setNode new
      { proc := some proc, ptr := ptr, cookie := cookie, refs := [], internalStrongRefs := 0,
        localWeakRefs := 0, localStrongRefs := 0, hasStrongRef := false, hasWeakRef := false,
        hasAsyncTransaction := false, acceptFds := false, minPriority := 0, work := none })
  | _, _ => return (none, h)

def binderIncNode (h : Heap) (a : Nat) (strong internal : Bool) (targetList : Option Todo) :
    Except Fault (Int × Heap) := do
  let n ← h.node a
  if strong then
    if internal && targetList.isNone && n.internalStrongRefs == 0 &&
        !(h.contextMgrNode == some a && n.hasStrongRef) then
      return (- EINVAL, h)
    else
      let n :=
        if internal then { n with internalStrongRefs := wrapInt (n.internalStrongRefs + 1) }
        else { n with localStrongRefs := wrapInt (n.localStrongRefs + 1) }
      let h := h.setNode a n
      match targetList with
      | some l =>
        if !n.hasStrongRef then return (0, (h.delWork a n).addWork a n l) else return (0, h)
      | none => return (0, h)
  else
    let n := if !internal then { n with localWeakRefs := wrapInt (n.localWeakRefs + 1) } else n
    let h := h.setNode a n
    if !n.hasWeakRef && n.work.isNone then
      match targetList with
      | none => return (- EINVAL, h)
      | some l => return (0, h.addWork a n l)
    else return (0, h)

def Node.dec (n : Node) (strong internal : Bool) : Node :=
  if strong then
    if internal then { n with internalStrongRefs := wrapInt (n.internalStrongRefs - 1) }
    else { n with localStrongRefs := wrapInt (n.localStrongRefs - 1) }
  else
    if !internal then { n with localWeakRefs := wrapInt (n.localWeakRefs - 1) } else n

def binderDecNode (rb : Rebalance Nat) (h : Heap) (a : Nat) (strong internal : Bool) :
    Except Fault Heap := do
  let n ← h.node a
  let n := n.dec strong internal
  let h := h.setNode a n
  if strong && (n.localStrongRefs != 0 || n.internalStrongRefs != 0) then return h
  else if !strong && (n.localWeakRefs != 0 || !n.refs.isEmpty) then return h
  else
    match n.proc with
    | some p =>
      if n.hasStrongRef || n.hasWeakRef then
        if n.work.isNone then return h.addWork a n (.proc p) else return h
      else if n.refs.isEmpty && n.localStrongRefs == 0 && n.localWeakRefs == 0 then
        let h := h.delWork a n
        let h := h.setTrees p { h.procs p with nodes := rb.erase a (h.procs p).nodes }
        return h.freeNode a
      else return h
    | none =>
      if n.refs.isEmpty && n.localStrongRefs == 0 && n.localWeakRefs == 0 then
        return (h.delWork a n).freeNode a
      else return h

/-! ### References -/

def binderGetRef (h : Heap) (proc desc : Nat) : Except Fault (Option Nat) :=
  searchTree h.descOf desc (h.procs proc).refsByDesc

def newDesc (h : Heap) : List Nat → Nat → Except Fault Nat
  | [], desc => .ok desc
  | r :: rs, desc => do
    let ref ← h.ref r
    if ref.desc > desc then return desc else newDesc h rs (wadd ref.desc 1)

def binderGetRefForNode (rb : Rebalance Nat) (h : Heap) (proc node : Nat) (kzalloc : Option Nat) :
    Except Fault (Option Nat × Heap) := do
  match ← searchTree h.nodeOf node (h.procs proc).refsByNode, kzalloc with
  | some r, _ => return (some r, h)
  | none, none => return (none, h)
  | none, some new =>
    let byNode ← linkTree h.nodeOf node new (h.procs proc).refsByNode
    let desc ← newDesc h (inorder (h.procs proc).refsByDesc)
      (if h.contextMgrNode = some node then 0 else 1)
    let byDesc ← linkTree h.descOf desc new (h.procs proc).refsByDesc
    let n ← h.node node
    let h := h.setTrees proc { h.procs proc with refsByNode := rb.insertColor new byNode
                                                 refsByDesc := rb.insertColor new byDesc }
    let h := h.setRef new { proc := proc, node := node, desc := desc, strong := 0, weak := 0 }
    return (some new, h.setNode node { n with refs := new :: n.refs })

def binderDeleteRef (rb : Rebalance Nat) (h : Heap) (r : Nat) : Except Fault Heap := do
  let ref ← h.ref r
  let t := h.procs ref.proc
  let h := h.setTrees ref.proc { t with refsByDesc := rb.erase r t.refsByDesc
                                        refsByNode := rb.erase r t.refsByNode }
  let h ← (if ref.strong ≠ 0 then binderDecNode rb h ref.node true true else pure h)
  let n ← h.node ref.node
  let h := h.setNode ref.node { n with refs := n.refs.erase r }
  let h ← binderDecNode rb h ref.node false true
  return h.freeRef r

def binderIncRef (h : Heap) (r : Nat) (strong : Bool) (targetList : Option Todo) :
    Except Fault (Int × Heap) := do
  let ref ← h.ref r
  let done ←
    (if ref.count strong = 0 then binderIncNode h ref.node strong true targetList else pure (0, h))
  if done.1 ≠ 0 then return done
  else if strong then return (0, done.2.setRef r { ref with strong := wrapInt (ref.strong + 1) })
  else return (0, done.2.setRef r { ref with weak := wrapInt (ref.weak + 1) })

def binderDecRef (rb : Rebalance Nat) (h : Heap) (r : Nat) (strong : Bool) :
    Except Fault (Int × Heap) := do
  let ref ← h.ref r
  if ref.count strong = 0 then return (- EINVAL, h)
  else
    let ref :=
      if strong then { ref with strong := wrapInt (ref.strong - 1) }
      else { ref with weak := wrapInt (ref.weak - 1) }
    let h := h.setRef r ref
    let h ←
      (if strong ∧ ref.strong = 0 then binderDecNode rb h ref.node true true else pure h)
    if ref.strong = 0 ∧ ref.weak = 0 then return (0, ← binderDeleteRef rb h r) else return (0, h)

/-! ### The calls that count references, in any order

A state is the heap with two counts for each node that the code does not have: the local strong
holds (`holds true`) and weak holds (`holds false`) that no `binder_dec_node` has answered yet. The
context manager keeps one of each on its own node. -/

/-- The heap, and how many local references are held to each node. -/
structure RefState where
  heap : Heap
  holds : Bool → Nat → Nat

/-- An address that `kzalloc` can return. -/
def Heap.Fresh (h : Heap) (a : Nat) : Prop :=
  a % 4 = 0 ∧ a < wordSize ∧ h.nodes a = none ∧ h.refs a = none

def setContextMgr (rb : Rebalance Nat) (h : Heap) (proc : Nat) (kzalloc : Option Nat) :
    Except Fault (Int × Heap) :=
  if h.contextMgrNode.isSome then .ok (- EBUSY, h)
  else do
    let made ← binderNewNode rb h proc 0 0 kzalloc
    let h := { made.2 with contextMgrNode := made.1 }
    match made.1 with
    | none => return (- ENOMEM, h)
    | some a =>
      let n ← h.node a
      return (0, h.setNode a
        { n with localWeakRefs := wrapInt (n.localWeakRefs + 1)
                 localStrongRefs := wrapInt (n.localStrongRefs + 1)
                 hasStrongRef := true, hasWeakRef := true })

inductive NodeCmd where
  | noop
  | increfs
  | acquire
  | release
  | decrefs
deriving DecidableEq

def readNodeWork (rb : Rebalance Nat) (h : Heap) (proc a : Nat) : Except Fault (NodeCmd × Heap) :=
  do
  let n ← h.node a
  let strong := n.internalStrongRefs != 0 || n.localStrongRefs != 0
  let weak := !n.refs.isEmpty || n.localWeakRefs != 0 || strong
  if weak && !n.hasWeakRef then
    return (.increfs, h.setNode a
      { n with hasWeakRef := true, localWeakRefs := wrapInt (n.localWeakRefs + 1) })
  else if strong && !n.hasStrongRef then
    return (.acquire, h.setNode a
      { n with hasStrongRef := true, localStrongRefs := wrapInt (n.localStrongRefs + 1) })
  else if !strong && n.hasStrongRef then
    return (.release, h.setNode a { n with hasStrongRef := false })
  else if !weak && n.hasWeakRef then
    return (.decrefs, h.setNode a { n with hasWeakRef := false })
  else
    let h := h.delWork a n
    if !weak && !strong then
      let h := h.setTrees proc { h.procs proc with nodes := rb.erase a (h.procs proc).nodes }
      return (.noop, h.freeNode a)
    else return (.noop, h)

def releaseNode (rb : Rebalance Nat) (h : Heap) (proc a : Nat) : Except Fault Heap := do
  let n ← h.node a
  let h := { h with contextMgrNode := if h.contextMgrNode = some a then none else h.contextMgrNode }
  let h := h.setTrees proc { h.procs proc with nodes := rb.erase a (h.procs proc).nodes }
  let h := h.delWork a n
  return h.setNode a { n with work := none, proc := none, localStrongRefs := 0, localWeakRefs := 0 }

/-- The calls on nodes and references. -/
inductive RefEvent where
  | newNode (proc ptr cookie : Nat) (kzalloc : Option Nat)
  | setContextMgr (proc : Nat) (kzalloc : Option Nat)
  | getRefForNode (proc node : Nat) (kzalloc : Option Nat)
  | incRef (r : Nat) (strong : Bool) (targetList : Option Todo)
  | decRef (r : Nat) (strong : Bool)
  | deleteRef (r : Nat)
  | incLocal (a : Nat) (strong : Bool) (targetList : Option Todo)
  | decLocal (a : Nat) (strong : Bool)
  | threadRead (proc a : Nat)
  | releaseWork (a : Nat)
  | ownerDies (proc a : Nat)

def addHold (holds : Bool → Nat → Nat) (strong : Bool) (a : Nat) : Bool → Nat → Nat :=
  update holds strong (update (holds strong) a (holds strong a + 1))

def dropHold (holds : Bool → Nat → Nat) (strong : Bool) (a : Nat) : Bool → Nat → Nat :=
  update holds strong (update (holds strong) a (holds strong a - 1))

def clearHolds (holds : Bool → Nat → Nat) (a : Nat) : Bool → Nat → Nat :=
  fun strong => update (holds strong) a 0

/-- What the callers guarantee. -/
def RefEvent.Valid : RefEvent → RefState → Prop
  | .newNode _ _ _ kzalloc, s => ∀ a ∈ kzalloc, s.heap.Fresh a
  | .setContextMgr _ kzalloc, s => ∀ a ∈ kzalloc, s.heap.Fresh a
  | .getRefForNode _ node kzalloc, s => (s.heap.nodes node).isSome ∧ ∀ a ∈ kzalloc, s.heap.Fresh a
  | .incRef r _ _, s => (s.heap.refs r).isSome
  | .decRef r _, s => (s.heap.refs r).isSome
  | .deleteRef r, s => (s.heap.refs r).isSome
  | .incLocal a _ _, s => (s.heap.nodes a).isSome
  | .decLocal a strong, s =>
    0 < s.holds strong a ∧ (s.heap.contextMgrNode = some a → 1 < s.holds strong a)
  | .threadRead proc a, s => ∃ n, s.heap.nodes a = some n ∧ n.proc = some proc
  | .releaseWork a, s => (s.heap.nodes a).isSome
  | .ownerDies proc a, s => ∃ n, s.heap.nodes a = some n ∧ n.proc = some proc ∧ n.refs ≠ []

def RefEvent.exec (rb : Rebalance Nat) : RefEvent → RefState → Except Fault RefState
  | .newNode proc ptr cookie kzalloc, s => do
    let made ← binderNewNode rb s.heap proc ptr cookie kzalloc
    return { s with heap := made.2 }
  | .setContextMgr proc kzalloc, s => do
    let done ← Binder.setContextMgr rb s.heap proc kzalloc
    match done.2.contextMgrNode with
    | some a =>
      return { heap := done.2
               holds := if done.1 = 0 then addHold (addHold s.holds true a) false a else s.holds }
    | none => return { s with heap := done.2 }
  | .getRefForNode proc node kzalloc, s => do
    let found ← binderGetRefForNode rb s.heap proc node kzalloc
    return { s with heap := found.2 }
  | .incRef r strong targetList, s => do
    let done ← binderIncRef s.heap r strong targetList
    return { s with heap := done.2 }
  | .decRef r strong, s => do
    let done ← binderDecRef rb s.heap r strong
    return { s with heap := done.2 }
  | .deleteRef r, s => do return { s with heap := ← binderDeleteRef rb s.heap r }
  | .incLocal a strong targetList, s => do
    let done ← binderIncNode s.heap a strong false targetList
    return { heap := done.2, holds := addHold s.holds strong a }
  | .decLocal a strong, s => do
    let h ← binderDecNode rb s.heap a strong false
    return { heap := h, holds := dropHold s.holds strong a }
  | .threadRead proc a, s => do
    let done ← readNodeWork rb s.heap proc a
    return { heap := done.2
             holds := match done.1 with
               | .increfs => addHold s.holds false a
               | .acquire => addHold s.holds true a
               | _ => s.holds }
  | .releaseWork a, s => do return { s with heap := s.heap.delWork a (← s.heap.node a) }
  | .ownerDies proc a, s => do
    return { heap := ← releaseNode rb s.heap proc a, holds := clearHolds s.holds a }

/-- A valid call that meets no fault. -/
def RefState.Step (rb : Rebalance Nat) (e : RefEvent) (s t : RefState) : Prop :=
  e.Valid s ∧ e.exec rb s = .ok t

/-- No process has a node or a reference. -/
def RefState.Start (s : RefState) : Prop :=
  (∀ a, s.heap.nodes a = none) ∧ (∀ r, s.heap.refs r = none) ∧
    (∀ p, s.heap.procs p = ⟨.nil, .nil, .nil⟩) ∧ s.heap.contextMgrNode = none ∧
      ∀ strong a, s.holds strong a = 0

def intMax : Int := 2 ^ 31 - 1

/-- No count is at its maximum. -/
def RefEvent.InRange : RefEvent → RefState → Prop
  | .incRef r strong _, s => ∀ ref, s.heap.refs r = some ref →
      ref.count strong ≠ intMax
  | .incLocal a strong _, s => ∀ n, s.heap.nodes a = some n →
      n.localRefs strong ≠ intMax
  | .threadRead _ a, s => ∀ n, s.heap.nodes a = some n →
      ∀ strong, n.localRefs strong ≠ intMax
  | _, _ => True

/-- A step in which no count overflows. -/
def RefState.SafeStep (rb : Rebalance Nat) (e : RefEvent) (s t : RefState) : Prop :=
  e.InRange s ∧ RefState.Step rb e s t

end Wm8850.Binder
