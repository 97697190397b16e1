import Mathlib.Logic.Function.Basic
import Wm8850.Lib.Reach

/-! # The frames of the boot animation

One thread writes frames into the slots of a ring, and another one reads them. A position is the
offset from `buffer` (the array is in memory, and its size is an `int`), and `mem` is what the slots
hold. Each call is two steps, since the other thread can run between the move of the position and
the `up`. `stop` is not called, and no wait is interrupted. -/

namespace Wm8850.Bootanimation

structure AnimationBuffer where
  wPos : Nat
  rPos : Nat
  frameCount : Nat
  frameSize : Nat
  frameSize_pos : 0 < frameSize
  semWritable : Nat
  semReadable : Nat

/-- A thread is outside the calls, has the address of a slot, or is in front of the `up`. -/
inductive Place where
  | idle
  | holds (addr : Nat)
  | moved
deriving DecidableEq

/-- `written` and `read` record the frames (and the slots) that passed through the two finish
calls. -/
structure State (Frame : Type) where
  buf : AnimationBuffer
  mem : Nat → Frame
  writer : Place
  reader : Place
  written : List (Nat × Frame)
  read : List Frame

inductive Action (Frame : Type) where
  | getWritable
  | fill (frame : Frame)
  | writeFinish
  | upReadable
  | getReadable
  | readFinish
  | upWritable

variable {Frame : Type}

def animationBufferInit (size count : Nat) (hsize : 0 < size) (mem : Nat → Frame) :
    State Frame where
  buf := ⟨0, 0, count, size, hsize, count, 0⟩
  mem := mem
  writer := .idle
  reader := .idle
  written := []
  read := []

def AnimationBuffer.advance (buf : AnimationBuffer) (pos : Nat) : Nat :=
  if pos + buf.frameSize = buf.frameSize * buf.frameCount then 0 else pos + buf.frameSize

def step (s : State Frame) : Action Frame → Option (State Frame)
  | .getWritable =>
    -- `down_interruptible` waits at zero.
    if s.writer = .idle ∧ 0 < s.buf.semWritable then
      some { s with
        buf := { s.buf with semWritable := s.buf.semWritable - 1 }, writer := .holds s.buf.wPos }
    else none
  | .fill frame =>
    match s.writer with
    | .holds addr => some { s with mem := Function.update s.mem addr frame }
    | _ => none
  | .writeFinish =>
    match s.writer with
    | .holds addr =>
      some { s with
        buf := { s.buf with wPos := s.buf.advance s.buf.wPos }
        writer := .moved, written := s.written ++ [(addr, s.mem addr)] }
    | _ => none
  | .upReadable =>
    if s.writer = .moved then
      some { s with buf := { s.buf with semReadable := s.buf.semReadable + 1 }, writer := .idle }
    else none
  | .getReadable =>
    if s.reader ≠ .idle then none
    -- `down_trylock` fails at zero, and the reader gets `NULL`.
    else if s.buf.semReadable = 0 then some s
    else
      some { s with
        buf := { s.buf with semReadable := s.buf.semReadable - 1 }, reader := .holds s.buf.rPos }
  | .readFinish =>
    match s.reader with
    | .holds addr =>
      some { s with
        buf := { s.buf with rPos := s.buf.advance s.buf.rPos }
        reader := .moved, read := s.read ++ [s.mem addr] }
    | _ => none
  | .upWritable =>
    if s.reader = .moved then
      some { s with buf := { s.buf with semWritable := s.buf.semWritable + 1 }, reader := .idle }
    else none

/-- The states of a ring of `count` frames. -/
def Reachable (size count : Nat) (s : State Frame) : Prop :=
  Lib.Reach (fun s => ∃ hsize mem, s = animationBufferInit size count hsize mem)
    (fun action s t => step s action = some t) s

end Wm8850.Bootanimation
