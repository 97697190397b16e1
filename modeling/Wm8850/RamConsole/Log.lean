import Mathlib.Data.BitVec
import Wm8850.Lib.Ring
import Wm8850.Lib.Word

/-! # A console in memory that survives a reboot

`ram_console_write` keeps the last bytes of the log in a ring behind a small header, and
`ram_console_init` of the next boot saves them from the same memory. Error correction is off, and
there is no boot info. -/

namespace Wm8850.RamConsole

open Lib List

abbrev Byte := BitVec 8

/-- `struct ram_console_buffer`, and the memory behind it. -/
structure Buffer where
  sig : Nat
  start : Nat
  size : Nat
  data : Nat → Byte

def ramConsoleSig : Nat := 0x43474244

/-- `sizeof(struct ram_console_buffer)`. -/
def headerSize : Nat := 12

def ramConsoleUpdate (b : Buffer) (s : List Byte) :
    Buffer := { b with data := store b.data b.start s }

/-- `ram_console_write` of the bytes `s`, with `n` for `ram_console_buffer_size`. -/
def ramConsoleWrite (n : Nat) (b : Buffer) (s : List Byte) : Buffer :=
  let s := if s.length > n then s.drop (s.length - n) else s
  let rem := n - b.start
  let (b, s) :=
    if rem < s.length then
      ({ ramConsoleUpdate b (s.take rem) with start := 0, size := n }, s.drop rem)
    else (b, s)
  let b := ramConsoleUpdate b s
  { b with start := b.start + s.length, size := if b.size < n then b.size + s.length else b.size }

/-- `ram_console_save_old`: the two copies to `ram_console_old_log`. -/
def ramConsoleSaveOld (b : Buffer) : List Byte :=
  ((range (b.size - b.start)).map fun i => b.data (b.start + i)) ++ (range b.start).map b.data

/-- `ram_console_init`: the buffer after it and the old log that is saved, or `none` for a size that
is refused. `dest` says that there is memory for the log. -/
def ramConsoleInit (bufferSize : Nat) (dest : Bool) (b : Buffer) :
    Option (Buffer × Option (List Byte)) :=
  let n := wsub bufferSize headerSize
  if n > bufferSize then none
  else
    let old := if b.sig = ramConsoleSig ∧ ¬ (b.size > n ∨ b.start > b.size) ∧ dest
      then some (ramConsoleSaveOld b) else none
    some ({ b with sig := ramConsoleSig, start := 0, size := 0 }, old)

end Wm8850.RamConsole
