import Wm8850.Lib.Word

/-! # The low memory killer

`lowmem_shrink` of `lowmemorykiller.c`. Page counts are words, since they are compared with a
`size_t`. Left out are the messages. -/

namespace Wm8850.Lowmem

open Lib

def oomAdjustMax : Int := 15

/-- A task with the size of its memory (`get_mm_rss`) if it has one, and the `oom_adj` of its
`signal`. -/
structure Task where
  pid : Nat
  mm : Option Int
  signal : Option Int
  oomAdj_le : ∀ adj ∈ signal, adj ≤ oomAdjustMax

/-- The module parameters. -/
structure Params where
  lowmemAdj : Nat → Int
  lowmemAdjSize : Nat
  lowmemMinfree : Nat → Nat
  lowmemMinfreeSize : Nat

/-- `global_page_state` and the clock. `pages` is the number of active and inactive pages. -/
structure Counters where
  nrFreePages : Nat
  nrFilePages : Nat
  nrShmem : Nat
  pages : Nat
  jiffies : Nat
  hz : Nat

/-- The task that is dying, and until when it is waited for. -/
structure State where
  deathpending : Option Nat
  timeout : Nat

def State.deathPending (s : State) (jiffies : Nat) : Bool :=
  s.deathpending.isSome && decide (wsub s.timeout jiffies < 2 ^ 31)

/-- Free pages and pages of files are both below the threshold `i`. -/
def Params.below (c : Params) (x : Counters) (i : Nat) : Bool :=
  decide (x.nrFreePages < c.lowmemMinfree i ∧ wsub x.nrFilePages x.nrShmem < c.lowmemMinfree i)

def Params.arraySize (c : Params) : Nat := min (min 6 c.lowmemAdjSize) c.lowmemMinfreeSize

/-- The `adj` from which on tasks are killed. -/
def Params.minAdj (c : Params) (x : Counters) : Int :=
  match (List.range c.arraySize).find? (c.below x) with
  | some i => c.lowmemAdj i
  | none => oomAdjustMax + 1

structure Selected where
  task : Task
  tasksize : Int
  oomAdj : Int

/-- A turn of `for_each_process`. -/
def select (minAdj : Int) (selected : Option Selected) (p : Task) : Option Selected :=
  match p.mm, p.signal with
  | some tasksize, some oomAdj =>
    if oomAdj < minAdj then selected
    else if tasksize ≤ 0 then selected
    else
      match selected with
      | none => some ⟨p, tasksize, oomAdj⟩
      | some s =>
        if oomAdj < s.oomAdj then selected
        else if oomAdj = s.oomAdj ∧ tasksize ≤ s.tasksize then selected
        else some ⟨p, tasksize, oomAdj⟩
  | _, _ => selected

/-- The new state, the result and the task that gets `SIGKILL`. -/
def lowmemShrink (c : Params) (s : State) (x : Counters) (nrToScan : Nat) (tasks : List Task) :
    State × Int × Option Task :=
  if s.deathPending x.jiffies then (s, 0, none)
  else
    let rem := wrapInt x.pages
    let minAdj := c.minAdj x
    if nrToScan = 0 ∨ minAdj = oomAdjustMax + 1 then (s, rem, none)
    else
      match tasks.foldl (select minAdj) none with
      | none => (s, rem, none)
      | some sel =>
        (⟨some sel.task.pid, wadd x.jiffies x.hz⟩, wrapInt (rem - sel.tasksize), some sel.task)

end Wm8850.Lowmem
