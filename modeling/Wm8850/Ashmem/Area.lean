import Wm8850.Lib.Intervals
import Wm8850.Lib.Word
import Wm8850.Lib.Reach

/-! # Pinned and unpinned pages of ashmem

An ashmem area is shared memory whose pages a process can unpin. The kernel may purge unpinned pages
(`ashmem_shrink`), and a process that pins them again is told so. The unpinned ranges of an area are
listed from the high pages down; those that are not purged are also in `ashmem_lru_list`, and
`lru_count` counts their pages.

A range is known by its address `id`. A page number is below `2 ^ 20`, so only the counts of pages
wrap: an empty range ends one page before its start. `vmtruncate_range` is a list of the calls, and
the file of an area is only a flag. -/

namespace Wm8850.Ashmem

open Lib List

def EINVAL : Int := 22
def EFAULT : Int := 14
def ENOMEM : Int := 12

def pageSize : Nat := 4096

/-- `struct ashmem_range`. The flag `purged` is set for `ASHMEM_WAS_PURGED`. -/
structure Range where
  id : Nat
  asma : Nat
  pgstart : Nat
  pgend : Nat
  purged : Bool
deriving DecidableEq

/-- `ashmem_lru_list`, `lru_count`, and the addresses from which on no range was allocated. -/
structure Lru where
  ranges : List Nat
  count : Nat
  fresh : Nat
deriving DecidableEq

/-- A `struct ashmem_area`, with its unpinned ranges from the last one down. -/
structure Area where
  size : Nat
  file : Bool
  unpinned : List Range
deriving DecidableEq

def rangeSize (r : Range) : Nat := wadd (wsub r.pgend r.pgstart) 1

def pageRangeSubsumesRange (r : Range) (start stop : Nat) : Bool :=
  decide (start ≤ r.pgstart ∧ r.pgend ≤ stop)

def pageRangeSubsumedByRange (r : Range) (start stop : Nat) : Bool :=
  decide (r.pgstart ≤ start ∧ stop ≤ r.pgend)

def pageInRange (r : Range) (page : Nat) : Bool := decide (r.pgstart ≤ page ∧ page ≤ r.pgend)

def pageRangeInRange (r : Range) (start stop : Nat) : Bool :=
  pageInRange r start || pageInRange r stop || pageRangeSubsumesRange r start stop

def rangeBeforePage (r : Range) (page : Nat) : Bool := decide (r.pgend < page)

def lruAdd (lru : Lru) (r : Range) : Lru :=
  { lru with ranges := lru.ranges ++ [r.id], count := wadd lru.count (rangeSize r) }

def lruDel (lru : Lru) (r : Range) : Lru :=
  { lru with ranges := lru.ranges.erase r.id, count := wsub lru.count (rangeSize r) }

def rangeAlloc (allocs : Range → Bool) (lru : Lru) (asma : Nat) (purged : Bool) (start stop : Nat) :
    Option Range × Lru :=
  let r : Range := ⟨lru.fresh, asma, start, stop, purged⟩
  if allocs r then
    let lru := { lru with fresh := lru.fresh + 1 }
    (some r, if r.purged then lru else lruAdd lru r)
  else (none, lru)

def rangeDel (lru : Lru) (r : Range) : Lru := if r.purged then lru else lruDel lru r

def rangeShrink (lru : Lru) (r : Range) (start stop : Nat) : Range × Lru :=
  let pre := rangeSize r
  let r := { r with pgstart := start, pgend := stop }
  (r, if r.purged then lru else { lru with count := wsub lru.count (wsub pre (rangeSize r)) })

def pinLoop (allocs : Range → Bool) (asma pgstart pgend : Nat) :
    List Range → Lru → List Range × Lru × Bool
  | [], lru => ([], lru, false)
  | r :: rest, lru =>
    if rangeBeforePage r pgstart then (r :: rest, lru, false)
    else if pageRangeInRange r pgstart pgend then
      if pageRangeSubsumesRange r pgstart pgend then
        -- Case 1: the whole range goes.
        let after := pinLoop allocs asma pgstart pgend rest (rangeDel lru r)
        (after.1, after.2.1, r.purged || after.2.2)
      else if pgstart ≤ r.pgstart then
        -- Case 2: its start goes.
        let cut := rangeShrink lru r (pgend + 1) r.pgend
        let after := pinLoop allocs asma pgstart pgend rest cut.2
        (cut.1 :: after.1, after.2.1, r.purged || after.2.2)
      else if r.pgend ≤ pgend then
        -- Case 3: its end goes.
        let cut := rangeShrink lru r r.pgstart (pgstart - 1)
        let after := pinLoop allocs asma pgstart pgend rest cut.2
        (cut.1 :: after.1, after.2.1, r.purged || after.2.2)
      else
        -- Case 4: a part in the middle goes, and the loop ends.
        let upper := rangeAlloc allocs lru asma r.purged (pgend + 1) r.pgend
        let cut := rangeShrink upper.2 r r.pgstart (pgstart - 1)
        (upper.1.toList ++ cut.1 :: rest, cut.2, r.purged)
    else
      let after := pinLoop allocs asma pgstart pgend rest lru
      (r :: after.1, after.2)

inductive UnpinPass where
  | subsumed
  | merge (r : Range) (rest : List Range)
  | insert (front back : List Range)

def UnpinPass.after (r : Range) : UnpinPass → UnpinPass
  | .subsumed => .subsumed
  | .merge m rest => .merge m (r :: rest)
  | .insert front back => .insert (r :: front) back

def unpinPass (pgstart pgend : Nat) : List Range → UnpinPass
  | [] => .insert [] []
  | r :: rest =>
    if rangeBeforePage r pgstart then .insert [] (r :: rest)
    else if pageRangeSubsumedByRange r pgstart pgend then .subsumed
    else if pageRangeInRange r pgstart pgend then .merge r rest
    else (unpinPass pgstart pgend rest).after r

lemma unpinPass_merge {pgstart pgend : Nat} {ranges : List Range} {r : Range} {rest : List Range}
    (h : unpinPass pgstart pgend ranges = .merge r rest) :
    ∃ front back, ranges = front ++ r :: back ∧ rest = front ++ back := by
  induction ranges generalizing r rest with
  | nil => cases h
  | cons x xs ih =>
    unfold unpinPass at h
    split at h
    · cases h
    split at h
    · cases h
    split at h
    · cases h
      exact ⟨[], xs, rfl, rfl⟩
    cases hpass : unpinPass pgstart pgend xs with
    | subsumed =>
      rw [hpass] at h
      cases h
    | insert front back =>
      rw [hpass] at h
      cases h
    | merge m ms =>
      rw [hpass] at h
      cases h
      obtain ⟨front, back, hxs, hms⟩ := ih hpass
      exact ⟨x :: front, back, by rw [hxs]; rfl, by rw [hms]; rfl⟩

def unpinLoop (allocs : Range → Bool) (asma : Nat) (ranges : List Range) (lru : Lru)
    (pgstart pgend : Nat) (purged : Bool) : Int × List Range × Lru :=
  match _h : unpinPass pgstart pgend ranges with
  | .subsumed => (0, ranges, lru)
  | .merge r rest =>
    unpinLoop allocs asma rest (rangeDel lru r) (min r.pgstart pgstart) (max r.pgend pgend)
      (purged || r.purged)
  | .insert front back =>
    match rangeAlloc allocs lru asma purged pgstart pgend with
    | (some r, lru) => (0, front ++ r :: back, lru)
    | (none, lru) => (- ENOMEM, ranges, lru)
termination_by ranges.length
decreasing_by
  obtain ⟨front, back, hranges, hrest⟩ := unpinPass_merge ‹_›
  rw [hranges, hrest, length_append, length_append, length_cons]
  omega

def statusLoop (pgstart pgend : Nat) : List Range → Bool
  | [] => false
  | r :: rest =>
    if rangeBeforePage r pgstart then false
    else if pageRangeInRange r pgstart pgend then true
    else statusLoop pgstart pgend rest

def pageAlign (n : Nat) : Nat := wadd n (pageSize - 1) / pageSize * pageSize

def pinArgs (size offset len : Nat) : Except Int (Nat × Nat) :=
  let len := if len = 0 then wsub (pageAlign size) offset else len
  if (offset ||| len) &&& (pageSize - 1) ≠ 0 then .error (- EINVAL)
  else if wordSize - 1 - offset < len then .error (- EINVAL)
  else if pageAlign size < wadd offset len then .error (- EINVAL)
  else .ok (offset / pageSize, wsub (wadd (offset / pageSize) (len / pageSize)) 1)

inductive Cmd where
  | pin
  | unpin
  | getPinStatus
deriving DecidableEq

/-- The `struct ashmem_pin` is missing if it cannot be copied. -/
def ashmemPinUnpin (allocs : Range → Bool) (asma : Nat) (area : Area) (lru : Lru) (cmd : Cmd)
    (pin : Option (BitVec 32 × BitVec 32)) : Int × Area × Lru :=
  if area.file = false then (- EINVAL, area, lru)
  else
    match pin with
    | none => (- EFAULT, area, lru)
    | some (offset, len) =>
      match pinArgs area.size offset.toNat len.toNat with
      | .error ret => (ret, area, lru)
      | .ok (pgstart, pgend) =>
        match cmd with
        | .pin =>
          let after := pinLoop allocs asma pgstart pgend area.unpinned lru
          ((if after.2.2 then 1 else 0), { area with unpinned := after.1 }, after.2.1)
        | .unpin =>
          let after := unpinLoop allocs asma area.unpinned lru pgstart pgend false
          (after.1, { area with unpinned := after.2.1 }, after.2.2)
        | .getPinStatus =>
          ((if statusLoop pgstart pgend area.unpinned then 0 else 1), area, lru)

/-! ### `ashmem_shrink` -/

/-- All areas, and the global list of ranges that can be purged. -/
structure State where
  areas : List Area
  lru : Lru
deriving DecidableEq

/-- The unpinned ranges of all areas. -/
def State.ranges (s : State) : List Range := s.areas.flatMap Area.unpinned

/-- A call of `vmtruncate_range`. -/
structure Truncate where
  asma : Nat
  start : Nat
  stop : Nat
deriving DecidableEq

def truncateOf (r : Range) : Truncate :=
  ⟨r.asma, r.pgstart * pageSize % wordSize, wsub ((r.pgend + 1) * pageSize) 1⟩

def setPurged (id : Nat) (r : Range) : Range := if r.id = id then { r with purged := true } else r

def purge (s : State) (r : Range) : State :=
  { areas := s.areas.map fun a => { a with unpinned := a.unpinned.map (setPurged r.id) }
    lru := lruDel s.lru r }

def shrinkLoop : List Nat → Nat → State → State × List Truncate
  | [], _, s => (s, [])
  | id :: ids, nrToScan, s =>
    match s.ranges.find? fun r => r.id == id with
    | none => (s, [])
    | some r =>
      let nrToScan := wsub nrToScan (rangeSize r)
      if nrToScan ≤ 0 then (purge s r, [truncateOf r])
      else
        let after := shrinkLoop ids nrToScan (purge s r)
        (after.1, truncateOf r :: after.2)

/-- The shrinker: the result, the new state and what was truncated. -/
def ashmemShrink (s : State) (nrToScan : Nat) (gfpFs : Bool) : Int × State × List Truncate :=
  if nrToScan ≠ 0 ∧ gfpFs = false then (- 1, s, [])
  else if nrToScan = 0 then (wrapInt s.lru.count, s, [])
  else
    let after := shrinkLoop s.lru.ranges nrToScan s
    (wrapInt after.1.lru.count, after.1, after.2)

/-! ### Runs

A `Run` also has the pages that were purged since they were last pinned, which nothing in the driver
holds. -/

/-- A state, and the pages of each area whose contents are gone. -/
structure Run where
  state : State
  purged : Nat → Set Nat

/-- The driver accepts a call on an area, and it is about the pages from `pgstart` to `pgend`. -/
def Accepted (area : Area) (pin : Option (BitVec 32 × BitVec 32)) (pgstart pgend : Nat) : Prop :=
  area.file = true ∧ ∃ offset len, pin = some (offset, len) ∧
    pinArgs area.size offset.toNat len.toNat = .ok (pgstart, pgend)

def pinnedPages (area : Area) (cmd : Cmd) (pin : Option (BitVec 32 × BitVec 32)) : Set Nat :=
  { p | cmd = .pin ∧ ∃ pgstart pgend, Accepted area pin pgstart pgend ∧ p ∈ Set.Icc pgstart pgend }

def truncatedPages (calls : List Truncate) (asma : Nat) : Set Nat :=
  { p | ∃ t ∈ calls, t.asma = asma ∧ t.start ≤ p * pageSize ∧
    p * pageSize + (pageSize - 1) ≤ t.stop }

/-- An area has a file only if its size is not zero. -/
structure Initial (r : Run) : Prop where
  pinned : ∀ a ∈ r.state.areas, a.unpinned = []
  size : ∀ a ∈ r.state.areas, a.size ≤ 0xFFFFF000
  file : ∀ a ∈ r.state.areas, a.file = true → 0 < a.size
  ranges : r.state.lru.ranges = []
  count : r.state.lru.count = 0
  purged : ∀ asma, r.purged asma = ∅

/-- A call of the driver. -/
inductive Call where
  | pinUnpin (asma : Nat) (cmd : Cmd) (pin : Option (BitVec 32 × BitVec 32))
  | shrink (nrToScan : Nat) (gfpFs : Bool)

def Run.pinUnpin (r : Run) (allocs : Range → Bool) (asma : Nat) (area : Area) (cmd : Cmd)
    (pin : Option (BitVec 32 × BitVec 32)) : Run :=
  let result := ashmemPinUnpin allocs asma area r.state.lru cmd pin
  { state := ⟨r.state.areas.set asma result.2.1, result.2.2⟩
    purged := Function.update r.purged asma (r.purged asma \ pinnedPages area cmd pin) }

def Run.shrink (r : Run) (nrToScan : Nat) (gfpFs : Bool) : Run :=
  let result := ashmemShrink r.state nrToScan gfpFs
  { state := result.2.1
    purged := fun asma => r.purged asma ∪ truncatedPages result.2.2 asma }

/-- A call, with memory for the new ranges that `Allowed` speaks of. -/
inductive Step (Allowed : (Range → Bool) → Prop) : Call → Run → Run → Prop where
  | pinUnpin {r : Run} {asma : Nat} {area : Area} {allocs : Range → Bool} (cmd : Cmd)
      (pin : Option (BitVec 32 × BitVec 32)) (hallocs : Allowed allocs)
      (harea : r.state.areas[asma]? = some area) :
      Step Allowed (.pinUnpin asma cmd pin) r (r.pinUnpin allocs asma area cmd pin)
  | shrink {r : Run} (nrToScan : Nat) (gfpFs : Bool) :
      Step Allowed (.shrink nrToScan gfpFs) r (r.shrink nrToScan gfpFs)

/-- There is memory for every new range. -/
def AllocsAll (allocs : Range → Bool) : Prop := ∀ r, allocs r = true

/-- There is memory for the new ranges that are purged. -/
def AllocsPurged (allocs : Range → Bool) : Prop := ∀ r, r.purged = true → allocs r = true

/-- A call that does not unpin an empty interval. -/
def NonemptyStep (c : Call) (r t : Run) : Prop :=
  Step AllocsAll c r t ∧
    ∀ asma area pin pgstart pgend, c = .pinUnpin asma .unpin pin →
      r.state.areas[asma]? = some area →
      Accepted area pin pgstart pgend → pgstart ≤ pgend

end Wm8850.Ashmem
