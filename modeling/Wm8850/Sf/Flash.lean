import Mathlib.Data.BitVec
import Wm8850.Lib.Word

/-! # The serial flash driver

One or two flash chips are read and written through a window from `MTDSF_PHY_ADDR` on. Chip 0 has
the addresses from `g_sf_info[0].phy` on, chip 1 those below.

A write to `SPI_ER_CTR` starts a sector erase, a copy into the window stores a byte, both only on a
chip that `SPI_WR_EN_CTR` enables. What a chip was given is done when the chip reads ready, or
refused if `SPI_ERROR_STATUS` shows an error then. The values of the registers at each reading of a
status are a parameter, and the state counts the readings. -/

namespace Wm8850.Sf

open Lib

def EINVAL : Int := 22

def errOk : Nat := 0x0

def errTimout : Nat := 0x11

def errProgError : Nat := 0x22

/-- `MTDSF_ERASE_SIZE`. -/
def eraseSize : Nat := 64 * 1024

/-- Where the two chips are. -/
structure Info where
  mtdsfPhyAddr : Nat
  phy : Nat
  size : Nat

inductive Chip where
  | cs0
  | cs1
deriving DecidableEq

/-- `SPI_MEM_0_SR_ACC`, `SPI_MEM_1_SR_ACC` and `SPI_ERROR_STATUS` at one reading. -/
structure Answer where
  sr0 : BitVec 32
  sr1 : BitVec 32
  error : BitVec 32

def Answer.sr (a : Answer) : Chip → BitVec 32
  | .cs0 => a.sr0
  | .cs1 => a.sr1

def Answer.Ready (a : Answer) (chip : Chip) : Prop := a.sr chip &&& 0x1#32 = 0#32

instance (a : Answer) (chip : Chip) : Decidable (a.Ready chip) :=
  inferInstanceAs (Decidable (_ = _))

def flashError (code : BitVec 32) : Nat :=
  if code &&& 0x80000000#32 ≠ 0#32 then errTimout
  else if code &&& 0x20#32 ≠ 0#32 then errProgError
  else if code &&& 0x10#32 ≠ 0#32 then errProgError
  else if code &&& 0x8#32 ≠ 0#32 then errProgError
  else if code &&& 0x4#32 ≠ 0#32 then errProgError
  else if code &&& 0x2#32 ≠ 0#32 then errProgError
  else if code &&& 0x1#32 ≠ 0#32 then errProgError
  else errOk

/-- No error is reported. -/
def Answer.Clean (a : Answer) : Prop := flashError a.error = errOk

instance (a : Answer) : Decidable a.Clean := inferInstanceAs (Decidable (_ = _))

/-- What a chip is to do. -/
inductive Work where
  | erase (start : Nat)
  | store (offset : Nat) (byte : BitVec 8)
deriving DecidableEq

/-- The controller and the chips behind it. `pending` has what the chips still work on. -/
structure Device where
  wrEnCtr : BitVec 32
  tick : Nat
  pending : List (Chip × Work)
  done : List Work

/-- Before a request. Work from before it shows in the status only. -/
def Device.fresh : Device := ⟨0#32, 0, [], []⟩

/-- The chip of an address. -/
def chipAt (info : Info) (addr : Nat) : Chip := if addr ≥ info.phy then .cs0 else .cs1

def Device.enabled (d : Device) : Chip → Bool
  | .cs0 => d.wrEnCtr.getLsbD 0
  | .cs1 => d.wrEnCtr.getLsbD 1

/-- The chip at an address gets work, if it is enabled. -/
def Device.give (d : Device) (info : Info) (addr : Nat) (work : Work) : Device :=
  let chip := chipAt info addr
  if d.enabled chip then { d with pending := d.pending ++ [(chip, work)] } else d

/-- The status is read. A chip that is ready has done its work, or has refused it. -/
def Device.read (d : Device) (a : Answer) : Device :=
  let finished := d.pending.filter fun w => a.Ready w.1
  { d with
    tick := d.tick + 1
    pending := d.pending.filter fun w => ¬a.Ready w.1
    done := if a.Clean then d.done ++ finished.map Prod.snd else d.done }

/-! ### Status -/

/-- The loop that all functions poll with. It ends when the chip is ready, with an error, or with
the last of its rounds. -/
def poll (answers : Nat → Answer) (chip : Chip) : Nat → Device → Nat × Device
  | 0, d => (errTimout, d)
  | timeout + 1, d =>
    let answer := answers d.tick
    let d := d.read answer
    if answer.Ready chip then (errOk, d)
    else if flashError answer.error ≠ errOk then (flashError answer.error, d)
    else poll answers chip timeout d

/-- The number of reads until a poll gives up. -/
def timeout : Nat := 0x30000000

def spiReadStatus (answers : Nat → Answer) (chip : Chip) (d : Device) : Nat × Device :=
  poll answers chip timeout d

/-! ### Erase -/

def wrEn : Chip → BitVec 32
  | .cs0 => 0x1#32
  | .cs1 => 0x2#32

/-- The two branches of the function differ in the chip. -/
def spiFlashSectorErase (info : Info) (answers : Nat → Answer) (addr : Nat) (d : Device) :
    Nat × Device :=
  let chip := chipAt info (wadd addr info.mtdsfPhyAddr)
  let d := { d with wrEnCtr := wrEn chip }
  let addr := addr &&& 0xFFFF0000
  let start := wadd addr info.mtdsfPhyAddr
  let d := d.give info start (.erase start)
  let polled := poll answers chip timeout d
  if polled.1 ≠ errOk then polled else (errOk, { polled.2 with wrEnCtr := 0#32 })

inductive EraseState where
  | pending
  | done
deriving DecidableEq

/-- A `struct erase_info`. -/
structure EraseInfo where
  addr : Nat
  len : Nat
  state : EraseState

/-- Erases one sector, whatever the length is. -/
def sfErase (info : Info) (answers : Nat → Answer) (instr : EraseInfo) (d : Device) :
    Int × EraseInfo × Device :=
  let erased := spiFlashSectorErase info answers (instr.addr % wordSize) d
  if erased.1 ≠ errOk then (- EINVAL, instr, erased.2)
  else (0, { instr with state := .done }, erased.2)

/-! ### Write -/

structure Copy where
  i : Nat
  len : Nat
  dev : Device

/-- One of the three loops. It runs while `least` bytes are left. A round copies `first` bytes, and
with `more` another one if one is left. -/
structure Loop where
  least : Nat
  first : Nat
  more : Bool
  first_pos : 0 < first
  first_le : first ≤ least

/-- `while (len >= 8)`. The two copies of 4 bytes are one of 8 here. -/
def loop8 : Loop := ⟨8, 8, false, by decide, by decide⟩

def loop4 : Loop := ⟨4, 4, true, by decide, by decide⟩

def loop1 : Loop := ⟨1, 1, true, by decide, by decide⟩

section
variable (info : Info) (answers : Nat → Answer) (offset : Nat) (buf : Nat → BitVec 8)
  {loop : Loop} {c : Copy}

def memcpyToio : Nat → Copy → Copy
  | 0, c => c
  | n + 1, c =>
    let dest := offset + c.i
    memcpyToio n ⟨c.i + 1, c.len - 1,
      c.dev.give info (dest + info.mtdsfPhyAddr) (.store dest (buf c.i))⟩

lemma len_memcpyToio (n : Nat) (c : Copy) : (memcpyToio info offset buf n c).len = c.len - n := by
  induction n generalizing c with
  | zero => rfl
  | succ n ih =>
    rw [memcpyToio, ih]
    dsimp only
    omega

def copyRound (loop : Loop) (c : Copy) : Copy :=
  let c := memcpyToio info offset buf loop.first c
  if loop.more = true ∧ c.len ≠ 0 then memcpyToio info offset buf 1 c else c

lemma len_copyRound_lt (h : loop.least ≤ c.len) :
    (copyRound info offset buf loop c).len < c.len := by
  have hfirst := loop.first_pos
  have hle := loop.first_le
  unfold copyRound
  dsimp only
  split
  · rw [len_memcpyToio, len_memcpyToio]
    omega
  · rw [len_memcpyToio]
    omega

/-- The body of a loop. The loops poll chip 0, also for a write to chip 1. -/
def copyPoll (loop : Loop) (c : Copy) : Nat × Copy :=
  let copied := copyRound info offset buf loop c
  let polled := poll answers .cs0 timeout copied.dev
  (polled.1, { copied with dev := polled.2 })

lemma len_copyPoll_lt (h : loop.least ≤ c.len) :
    (copyPoll info answers offset buf loop c).2.len < c.len :=
  len_copyRound_lt info offset buf h

def copyLoop (loop : Loop) (c : Copy) : Nat × Copy :=
  if loop.least ≤ c.len then
    let copied := copyPoll info answers offset buf loop c
    if copied.1 ≠ errOk then copied else copyLoop loop copied.2
  else (errOk, c)
termination_by c.len
decreasing_by exact len_copyPoll_lt info answers offset buf (by assumption)

def copyLoops (c : Copy) : Nat × Copy :=
  let copied := copyLoop info answers offset buf loop8 c
  if copied.1 ≠ errOk then copied
  else
    let copied := copyLoop info answers offset buf loop4 copied.2
    if copied.1 ≠ errOk then copied else copyLoop info answers offset buf loop1 copied.2

/-- The start of the loops: the chip was polled once, with any result, and both chips are
enabled. -/
def copyStart (len : Nat) (d : Device) : Copy :=
  let ready := spiReadStatus answers (chipAt info (offset + info.mtdsfPhyAddr)) d
  ⟨0, len, { ready.2 with wrEnCtr := 0x03#32 }⟩

def spiFlashSectorWrite (len : Nat) (d : Device) : Nat × Device :=
  let copied := copyLoops info answers offset buf (copyStart info answers offset len d)
  if copied.1 ≠ errOk then (copied.1, copied.2.dev)
  else (copied.2.i, { copied.2.dev with wrEnCtr := 0#32 })

/-- The result, the length that is reported, and the chips. -/
def sfWrite (len : Nat) (d : Device) : Int × Option Nat × Device :=
  if offset + len > info.size then (- EINVAL, none, d)
  else
    let written := spiFlashSectorWrite info answers offset buf len d
    (0, some written.1, written.2)

end

end Wm8850.Sf
