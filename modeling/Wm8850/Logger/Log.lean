import Wm8850.Lib.Word
import Wm8850.Lib.Ring
import Wm8850.Lib.Reach

/-! # The Android logger

A log is a ring of bytes. A writer appends an entry (header and payload), and the oldest give way.
Each reader has its own offset; `head` is where a new reader starts. Before it writes,
`logger_aio_write` moves the offsets that would be overwritten (`fix_up_readers`). `logger_read`
gives the field `thread_msec`, the last four bytes of the header, behind the payload.

The bytes behind the buffer are the memory that follows. A `copy_from_user` or `copy_to_user` that
fails leaves any bytes in its destination, or stops early. A log is not larger than `2 ^ 31`, so no
sum wraps. The console mode (`logcat_set`) is left out. -/

namespace Wm8850.Logger

open Lib

def EAGAIN : Int := 11
def EFAULT : Int := 14
def EINVAL : Int := 22

def entrySize : Nat := 24

def entryMaxLen : Nat := 4 * 1024 + 4

def entryMaxPayload : Nat := entryMaxLen - entrySize

def threadtimeSize : Nat := 4

def threadOffset : Nat := 20

/-- A reader and its position in the ring. -/
structure Reader where
  id : Nat
  rOff : Nat
deriving DecidableEq

/-- A `struct logger_log`. -/
structure Log where
  buffer : Bytes
  readers : List Reader
  wOff : Nat
  head : Nat
  size : Nat

/-- The offset in the ring, whose size is a power of two. -/
def loggerOffset (log : Log) (n : Nat) : Nat := n &&& (log.size - 1)

/-- The length of the entry at an offset, whose length field may wrap. -/
def getEntryLen (log : Log) (off : Nat) : Nat :=
  let second := if log.size - off = 1 then log.buffer 0 else log.buffer (off + 1)
  entrySize + ((log.buffer off).toNat + 256 * second.toNat)

lemma entrySize_le_getEntryLen (log : Log) (off : Nat) : entrySize ≤ getEntryLen log off :=
  Nat.le_add_right _ _

/-! ### `logger_read` -/

/-- One `copy_to_user(buf + dst, log->buffer + src, n)`. -/
structure UserCopy where
  dst : Nat
  src : Nat
  n : Nat

def readCopies (size rOff count : Nat) (fReadAttach : Bool) : List UserCopy :=
  let len := min count (size - rOff)
  if len < threadOffset then
    [⟨0, rOff, len⟩, ⟨len, 0, threadOffset - len⟩,
      ⟨threadOffset, threadOffset - len + 4, count - threadOffset - threadtimeSize⟩] ++
    if fReadAttach then [⟨count - 4, threadOffset - len, threadtimeSize⟩] else []
  else if len = threadOffset then
    [⟨0, rOff, len⟩, ⟨threadOffset, 4, count - threadOffset - threadtimeSize⟩] ++
    if fReadAttach then [⟨count - 4, 0, threadtimeSize⟩] else []
  else if len ≤ threadOffset + threadtimeSize then
    [⟨0, rOff, threadOffset⟩,
      ⟨threadOffset, threadOffset + threadtimeSize - len, count - threadOffset - threadtimeSize⟩] ++
    if fReadAttach then
      ⟨count - 4, rOff + threadOffset, len - threadOffset⟩ ::
        if len ≠ threadOffset + threadtimeSize then
          [⟨count - 4 + len - threadOffset, 0, threadOffset + threadtimeSize - len⟩]
        else []
    else []
  else
    [⟨0, rOff, threadOffset⟩,
      ⟨threadOffset, rOff + threadOffset + 4, len - threadOffset - threadtimeSize⟩] ++
    (if count ≠ len then [⟨len, 0, count - len⟩] else []) ++
    if fReadAttach then [⟨count - 4, rOff + threadOffset, threadtimeSize⟩] else []

def copyToUser (buffer mem : Bytes) (c : UserCopy) : Bytes := fun p =>
  if c.dst ≤ p ∧ p < c.dst + c.n then buffer (c.src + (p - c.dst)) else mem p

/-- The copies up to the first one that fails, and if all were made. The answer of the kernel is how
many bytes a copy makes that fails. -/
def copiesToUser (buffer : Bytes) : List UserCopy → List (Option Nat) → Bytes → Bool × Bytes
  | [], _, mem => (true, mem)
  | c :: _, some n :: _, mem => (false, copyToUser buffer mem { c with n := min n c.n })
  | c :: cs, none :: answers, mem => copiesToUser buffer cs answers (copyToUser buffer mem c)
  | c :: cs, [], mem => copiesToUser buffer cs [] (copyToUser buffer mem c)

def doReadLogToUser (log : Log) (rOff count : Nat) (fReadAttach : Bool)
    (answers : List (Option Nat)) (mem : Bytes) : Int × Nat × Bytes :=
  match copiesToUser log.buffer (readCopies log.size rOff count fReadAttach) answers mem with
  | (false, mem) => (- EFAULT, rOff, mem)
  | (true, mem) => (((count - 4 : Nat) : Int), loggerOffset log (rOff + count), mem)

/-- `logger_read` of a reader that does not block. -/
def loggerRead (log : Log) (rOff count : Nat) (answers : List (Option Nat)) (mem : Bytes) :
    Int × Nat × Bytes :=
  if log.wOff = rOff then (- EAGAIN, rOff, mem)
  else
    let ret := getEntryLen log rOff
    if count < ret - threadtimeSize then (- EINVAL, rOff, mem)
    else doReadLogToUser log rOff ret (decide (¬ count < ret)) answers mem

/-! ### `logger_aio_write` -/

def getNextEntryLoop (log : Log) (len off count : Nat) : Nat :=
  if count + getEntryLen log off < len then
    getNextEntryLoop log len (loggerOffset log (off + getEntryLen log off))
      (count + getEntryLen log off)
  else loggerOffset log (off + getEntryLen log off)
termination_by len - count
decreasing_by
  have hnr := entrySize_le_getEntryLen log off
  unfold entrySize at hnr
  omega

def getNextEntry (log : Log) (off len : Nat) : Nat := getNextEntryLoop log len off 0

/-- The line from `a` to `b` crosses `c`. -/
def clockInterval (a b c : Nat) : Bool :=
  if b < a then decide (a < c ∨ c ≤ b) else decide (a < c ∧ c ≤ b)

def fixUp (log : Log) (len off : Nat) : Nat :=
  if clockInterval log.wOff (loggerOffset log (log.wOff + len)) off then getNextEntry log off len
  else off

def fixUpReaders (log : Log) (len : Nat) : Log :=
  { log with
    head := fixUp log len log.head
    readers := log.readers.map fun r => { r with rOff := fixUp log len r.rOff } }

def doWriteLog (log : Log) (bytes : List (BitVec 8)) : Log :=
  let count := bytes.length
  let len := min count (log.size - log.wOff)
  let buffer := store log.buffer log.wOff (bytes.take len)
  let buffer := if count ≠ len then store buffer 0 (bytes.drop len) else buffer
  { log with buffer := buffer, wOff := loggerOffset log (log.wOff + count) }

/-- A `struct iovec` with its memory, and for the two copies from it the bytes that a failed copy
leaves. -/
structure Segment where
  data : List (BitVec 8)
  fault₁ : Option (List (BitVec 8))
  fault₂ : Option (List (BitVec 8))

def doWriteLogFromUser (log : Log) (seg : Segment) (count : Nat) : Int × Log :=
  let len := min count (log.size - log.wOff)
  match (if len ≠ 0 then seg.fault₁ else none), (if count ≠ len then seg.fault₂ else none) with
  | some junk, _ => (- EFAULT, { log with buffer := store log.buffer log.wOff (junk.take len) })
  | none, some junk =>
    let buffer := store log.buffer log.wOff (seg.data.take len)
    (- EFAULT, { log with buffer := store buffer 0 (junk.take (count - len)) })
  | none, none =>
    let buffer := store log.buffer log.wOff (seg.data.take len)
    let buffer := if count ≠ len then store buffer 0 ((seg.data.take count).drop len) else buffer
    (count, { log with buffer := buffer, wOff := loggerOffset log (log.wOff + count) })

/-- What the header of an entry says besides the length. -/
structure Stamp where
  pad : BitVec 16
  pid : BitVec 32
  tid : BitVec 32
  sec : BitVec 32
  nsec : BitVec 32
  threadMsec : BitVec 32

def headerBytes (len : Nat) (st : Stamp) : List (BitVec 8) :=
  [BitVec.ofNat 8 len, BitVec.ofNat 8 (len / 256), st.pad.extractLsb' 0 8,
      st.pad.extractLsb' 8 8] ++
    leBytes st.pid ++ leBytes st.tid ++ leBytes st.sec ++ leBytes st.nsec ++ leBytes st.threadMsec

/-- The loop over the segments. The offset `orig` is where `w_off` goes back to when a copy
fails. -/
def writeSegments (orig headerLen : Nat) : Nat → List Segment → Log → Int × Log
  | ret, [], log => (ret, log)
  | ret, seg :: iov, log =>
    let len := min seg.data.length (headerLen - ret)
    let written := doWriteLogFromUser log seg len
    if written.1 < 0 then (written.1, { written.2 with wOff := orig })
    else writeSegments orig headerLen (ret + len) iov written.2

/-- `logger_aio_write`, with `orig` as it was read before the mutex was taken. -/
def loggerAioWrite (log : Log) (orig kiLeft : Nat) (st : Stamp) (iov : List Segment) : Int × Log :=
  let headerLen := min kiLeft entryMaxPayload
  if headerLen = 0 then (0, log)
  else
    let log := fixUpReaders log (entrySize + headerLen)
    let log := doWriteLog log (headerBytes headerLen st)
    writeSegments orig headerLen 0 iov log

/-! ### `logger_open`, `logger_release` and `LOGGER_FLUSH_LOG` -/

def loggerOpen (log : Log) (id : Nat) : Log :=
  { log with readers := log.readers ++ [⟨id, log.head⟩] }

def loggerRelease (log : Log) (id : Nat) : Log :=
  { log with readers := log.readers.filter fun r => r.id != id }

def loggerFlush (log : Log) : Log :=
  { log with
    readers := log.readers.map fun r => { r with rOff := log.wOff }
    head := log.wOff }

/-! ### Runs

A `State` also has the entries of all writes that succeeded, and what each reader was given. In
`Step` a write is one step. In `ThreadStep` each writer samples `w_off` before it takes the
mutex. -/

open Function

abbrev Entry := List (BitVec 8)

def entryAt (log : Log) (off : Nat) : Entry :=
  (List.range (getEntryLen log off)).map fun i => log.buffer (loggerOffset log (off + i))

/-- The lengths in the headers lead from an offset through these entries to `w_off`. -/
def Reads (log : Log) : Nat → List Entry → Prop
  | off, [] => off = log.wOff
  | off, e :: es =>
    off ≠ log.wOff ∧ entryAt log off = e ∧
      Reads log (loggerOffset log (off + getEntryLen log off)) es

def payload (iov : List Segment) : List (BitVec 8) := (iov.map Segment.data).flatten

/-- The entry that a write is to store. -/
def entryOf (st : Stamp) (iov : List Segment) : Entry :=
  let headerLen := min (payload iov).length entryMaxPayload
  headerBytes headerLen st ++ (payload iov).take headerLen

/-- What one read gave: the bytes from its offset to the end of the ring, the room that the user
had, and the user's buffer after it. -/
structure Sight where
  split : Nat
  count : Nat
  mem : Bytes

/-- The log, what was written, and what the readers have seen. -/
structure State where
  log : Log
  written : List Entry
  seen : Nat → List Sight

/-- After `logger_aio_write`. -/
def State.wrote (s : State) (orig : Nat) (st : Stamp) (iov : List Segment) : State :=
  let result := loggerAioWrite s.log orig (payload iov).length st iov
  { s with
    log := result.2
    written := if 0 < result.1 then s.written ++ [entryOf st iov] else s.written }

def setReader (log : Log) (id rOff : Nat) : Log :=
  { log with readers := log.readers.map fun r => if r.id = id then { r with rOff := rOff } else r }

def State.read (s : State) (r : Reader) (count : Nat) (answers : List (Option Nat)) (mem : Bytes) :
    State :=
  let result := loggerRead s.log r.rOff count answers mem
  { s with
    log := setReader s.log r.id result.2.1
    seen :=
      if 0 ≤ result.1 then
        update s.seen r.id (s.seen r.id ++ [⟨s.log.size - r.rOff, count, result.2.2⟩])
      else s.seen }

def State.opened (s : State) (id : Nat) : State :=
  { s with log := loggerOpen s.log id, seen := update s.seen id [] }

/-- An empty log without readers. -/
structure Initial (size : Nat) (s : State) : Prop where
  size_eq : s.log.size = size
  wOff : s.log.wOff = 0
  head : s.log.head = 0
  readers : s.log.readers = []
  written : s.written = []

/-- The calls of the driver. -/
inductive Call where
  | aioWrite (st : Stamp) (iov : List Segment)
  | read (r : Reader) (count : Nat) (answers : List (Option Nat)) (mem : Bytes)
  | openReader (id : Nat)
  | release (id : Nat)
  | flush

/-- The calls that take no offset before the mutex. -/
inductive ReaderStep : Call → State → State → Prop where
  | read {s : State} {r : Reader} (count : Nat) (answers : List (Option Nat)) (mem : Bytes)
      (hr : r ∈ s.log.readers) : ReaderStep (.read r count answers mem) s
        (s.read r count answers mem)
  | openReader {s : State} {id : Nat} (hfresh : ∀ r ∈ s.log.readers, r.id ≠ id) :
      ReaderStep (.openReader id) s (s.opened id)
  | release {s : State} (id : Nat) :
      ReaderStep (.release id) s { s with log := loggerRelease s.log id }
  | flush {s : State} : ReaderStep .flush s { s with log := loggerFlush s.log }

/-- A call, made as a whole. -/
inductive Step : Call → State → State → Prop where
  | aioWrite {s : State} (st : Stamp) (iov : List Segment) :
      Step (.aioWrite st iov) s (s.wrote s.log.wOff st iov)
  | reader {c : Call} {s t : State} (h : ReaderStep c s t) : Step c s t

/-- A log with several writers. A writer that has left `logger_aio_write` has no `orig`. -/
structure Threads where
  state : State
  orig : Nat → Option Nat

/-- A write in two parts, or a call of a reader. -/
inductive ThreadCall where
  | sample (writer : Nat)
  | critical (writer : Nat) (st : Stamp) (iov : List Segment)
  | reader (c : Call)

/-- `w_off` is sampled before the lock is taken. -/
inductive ThreadStep : ThreadCall → Threads → Threads → Prop where
  | sample {s : Threads} (writer : Nat) :
      ThreadStep (.sample writer) s
        { s with orig := update s.orig writer (some s.state.log.wOff) }
  | critical {s : Threads} {writer orig : Nat} (st : Stamp) (iov : List Segment)
      (horig : s.orig writer = some orig) :
      ThreadStep (.critical writer st iov) s
        ⟨s.state.wrote orig st iov, update s.orig writer none⟩
  | reader {c : Call} {s : Threads} {t : State} (h : ReaderStep c s.state t) :
      ThreadStep (.reader c) s { s with state := t }

/-- An empty log, and no writer in between. -/
def InitialThreads (size : Nat) (s : Threads) : Prop :=
  Initial size s.state ∧ ∀ writer, s.orig writer = none

/-- The write returns an error. -/
def WriteFails (s : State) (orig : Nat) (st : Stamp) (iov : List Segment) : Prop :=
  (loggerAioWrite s.log orig (payload iov).length st iov).1 < 0

/-- No offset is in the part of the ring that the next `len` bytes go to. -/
def HasRoom (log : Log) (len : Nat) : Prop :=
  ∀ off ∈ log.head :: log.readers.map Reader.rOff,
    clockInterval log.wOff (loggerOffset log (log.wOff + len)) off = false

instance (log : Log) (len : Nat) : Decidable (HasRoom log len) :=
  inferInstanceAs (Decidable (∀ _ ∈ _, _))

/-- Steps in which a write that fails finds `w_off` as it sampled it, and room for its entry. -/
def CalmStep (c : ThreadCall) (s t : Threads) : Prop :=
  ThreadStep c s t ∧
    ∀ writer orig st iov, c = .critical writer st iov → s.orig writer = some orig →
      WriteFails s.state orig st iov →
        orig = s.state.log.wOff ∧ HasRoom s.state.log (entryOf st iov).length

end Wm8850.Logger
