import Wm8850.Ge.Pool
import Wm8850.Lib.Keyed

/-! # The device of the pool

`GMP_ALLOC_UMP` and `GMP_FREE_UMP` hand out blocks of the pool by an id of the UMP layer,
`gmp_users` counts the open descriptors of a process, and `gmp_sem` is the lock of the device. Each
part has its own runs, which also keep the ids that were handed out, the open descriptors, and who
holds the lock. -/

namespace Wm8850.Ge

open Lib Function

/-! ### The UMP commands -/

/-- Allocates a block with an id of the Mali driver. -/
def gmpAllocUmp (g : Gmp) (len : Nat) (pid : Int) (mali : Option Nat) :
    Option (Option Alloc × Int) :=
  match mali with
  | none => some (none, -EFAULT)
  | some id => do
    let r ← gmpAlloc g len gmpTagUmp pid (some id)
    let secureId ← gmpGetSecureId r.gmp r.ret
    return (some r, secureId)

/-- Frees the block with this id. -/
def gmpFreeUmp (g : Gmp) (secureId : Nat) : Option (Gmp × Int) := do
  let addr ← gmpGetAddrFromSecureId g secureId
  if addr ≠ 0 then return (← gmpFree g addr, 0)
  else return (g, -EFAULT)

/-- The pool, and the blocks that were created with their ids. -/
structure UmpState where
  gmp : Gmp
  made : List (Nat × Nat)
deriving Repr, DecidableEq

/-- The two calls with an id. -/
inductive Ioctl where
  | allocUmp (len : Nat) (pid : Int) (mali : Option Nat)
  | freeUmp (secureId : Nat)
deriving Repr, DecidableEq

def Ioctl.exec (s : UmpState) : Ioctl → Option UmpState
  | .allocUmp len pid mali => do
    match ← gmpAllocUmp s.gmp len pid mali with
    | (some r, _) =>
      return {
        gmp := r.gmp
        made := if r.ret = 0 then s.made else (r.ret, mali.getD umpInvalidSecureId) :: s.made }
    | (none, _) => return s
  | .freeUmp secureId => do
    let (g, _) ← gmpFreeUmp s.gmp secureId
    return { s with gmp := g }

def Ioctl.Sound : Ioctl → Prop
  | .allocUmp _ _ mali => mali ≠ some umpInvalidSecureId
  | .freeUmp _ => True

def Ioctl.ValidId : Ioctl → Prop
  | .allocUmp .. => True
  | .freeUmp secureId => secureId ≠ umpInvalidSecureId

/-- The pool right after its reset. -/
def UmpStarted (pa nr : Nat) (s : UmpState) : Prop := Started pa nr s.gmp ∧ s.made = []

/-- A call that returns. -/
def UmpStep (c : Ioctl) (s s' : UmpState) : Prop := c.Sound ∧ c.exec s = some s'

/-! ### The open descriptors -/

structure GmpUser where
  pid : Int
  ref : Int
deriving Repr, DecidableEq

def maxGmpUsers : Nat := 16

def getGmpUserRef (users : List GmpUser) (pid : Int) : Int :=
  match findKey GmpUser.pid pid users with
  | some u => u.ref
  | none => 0

/-- Counts an open of the process. -/
def addGmpUser (users : List GmpUser) (pid : Int) : List GmpUser :=
  match findKey GmpUser.pid pid users with
  | some _ => updateKey GmpUser.pid pid (fun u => { u with ref := u.ref + 1 }) users
  -- without a free entry the walk ends, and the process is not counted
  | none => updateKey GmpUser.pid 0 (fun _ => { pid := pid, ref := 1 }) users

/-- Counts a close. An entry with no open is free again. -/
def removeGmpUser (users : List GmpUser) (pid : Int) : List GmpUser :=
  updateKey GmpUser.pid pid
    (fun u => { pid := if u.ref - 1 = 0 then 0 else u.pid, ref := u.ref - 1 }) users

/-- The pool and the table of its users. -/
structure Device where
  gmp : Gmp
  users : List GmpUser
deriving Repr, DecidableEq

def gmpDeviceOpen (d : Device) (tgid : Int) : Device :=
  { d with users := addGmpUser d.users tgid }

/-- `gmp_device_release` of a descriptor whose `private_data` is `pid`, apart from the unlock at
its start. -/
def gmpDeviceRelease (d : Device) (pid : Int) : Option Device := do
  let users := removeGmpUser d.users pid
  if getGmpUserRef users pid = 0 then return { gmp := ← gmpInvalidate d.gmp pid, users := users }
  else return { d with users := users }

/-- The device, and the processes of the files that are open. -/
structure DeviceRun where
  dev : Device
  fds : List Int
deriving Repr, DecidableEq

/-- The calls on the device. -/
inductive DeviceOp where
  | openFd (tgid : Int)
  | releaseFd (pid : Int)
  | call (c : Call)
deriving Repr, DecidableEq

def DeviceOp.exec (s : DeviceRun) : DeviceOp → Option DeviceRun
  | .openFd tgid => some { dev := gmpDeviceOpen s.dev tgid, fds := tgid :: s.fds }
  | .releaseFd pid => do return { dev := ← gmpDeviceRelease s.dev pid, fds := s.fds.erase pid }
  | .call c => do return { s with dev := { s.dev with gmp := (← c.exec s.dev.gmp).1 } }

def DeviceOp.Sound (s : DeviceRun) : DeviceOp → Prop
  | .openFd tgid => tgid ≠ 0
  | .releaseFd pid => pid ∈ s.fds
  | .call _ => True

/-- A process that has a descriptor open opens another one only while it is in the table. -/
def DeviceOp.Counted (s : DeviceRun) : DeviceOp → Prop
  | .openFd tgid => tgid ∈ s.fds → ∃ u ∈ s.dev.users, u.pid = tgid
  | _ => True

/-- The device right after `probe`. -/
def DeviceStarted (pa nr : Nat) (s : DeviceRun) : Prop :=
  Started pa nr s.dev.gmp ∧ s.dev.users = List.replicate maxGmpUsers { pid := 0, ref := 0 } ∧
    s.fds = []

/-- A call that returns. -/
def DeviceStep (op : DeviceOp) (s s' : DeviceRun) : Prop := op.Sound s ∧ op.exec s = some s'

/-! ### The lock -/

/-- Where a task is inside a call of the lock. -/
inductive LockPc where
  | idle
  /-- behind `down_interruptible` -/
  | locking
  /-- behind the test of `gmp_sem_owner` -/
  | unlocking
  /-- behind `up` -/
  | clearing
deriving Repr, DecidableEq

/-- The lock of the device. `holds` says which tasks took the semaphore and did not return
it. -/
structure LockState (Task : Type) where
  sem : Nat
  owner : Option Task
  busy : Bool
  pc : Task → LockPc
  holds : Task → Bool

/-- The atomic steps of a task. A call of `gmp_device_unlock`, also the one in
`gmp_device_release`, starts with `test`. -/
inductive LockOp (Task : Type) where
  | down (t : Task)
  | own (t : Task)
  | test (t : Task)
  | up (t : Task)
  | clear (t : Task)

section
variable {Task : Type} [DecidableEq Task]

/-- An interrupted `down_interruptible` changes nothing. -/
def LockOp.exec (s : LockState Task) : LockOp Task → Option (LockState Task)
  | .down t =>
    if s.pc t = .idle ∧ 0 < s.sem then
      some { s with
        sem := s.sem - 1, pc := update s.pc t .locking
        holds := update s.holds t true }
    else none
  | .own t =>
    if s.pc t = .locking then
      some { s with owner := some t, busy := true, pc := update s.pc t .idle }
    else none
  | .test t =>
    if s.pc t = .idle then
      if s.owner = some t then some { s with pc := update s.pc t .unlocking }
      -- `return -1`
      else some s
    else none
  | .up t =>
    if s.pc t = .unlocking then
      some { s with
        sem := s.sem + 1, pc := update s.pc t .clearing
        holds := update s.holds t false }
    else none
  | .clear t =>
    if s.pc t = .clearing then
      some { s with busy := false, pc := update s.pc t .idle }
    else none

def LockOp.Fair (s : LockState Task) : LockOp Task → Prop
  | .test t => s.owner = some t → s.holds t = true
  | _ => True

/-- The lock after `probe`. -/
def lockStart : LockState Task :=
  { sem := 1, owner := none, busy := false, pc := fun _ => .idle, holds := fun _ => false }

/-- A step of a task. -/
def LockStep (op : LockOp Task) (s s' : LockState Task) : Prop := op.exec s = some s'

end

end Wm8850.Ge
