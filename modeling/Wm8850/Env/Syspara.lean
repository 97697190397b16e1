import Wm8850.Env.Flash
import Wm8850.Lib.Reach
import Wm8850.Lib.TwoSlots

/-! # Reading and writing a system parameter

The data array holds strings `name=value`, each with its NUL, and one more NUL at the end. A pointer
into the array is an index, and a read behind its end has no result. `Buf` also records at which
indices the code has stored a byte. -/

namespace Wm8850.Env

/-- A string without its NUL. -/
structure CStr where
  bytes : List UInt8
  noNul : (0 : UInt8) ∉ bytes

def ascii (s : String) : List UInt8 := s.toList.map fun c => c.val.toUInt8

def eqSign : UInt8 := 0x3d

/-! ### Searching -/

def strEnd (d : List UInt8) (env : Nat) : Option Nat :=
  ((d.drop env).findIdx? fun c => c == 0).map fun k => env + k

/-- `envmatch(s1, i2)`, with `some none` for the result `-1`. If the NUL of `s1` meets a NUL in
the environment, the loop goes on behind the end of `s1`. -/
def envmatch (d : List UInt8) : List UInt8 → Nat → Option (Option Nat)
  | [], i2 =>
    match d[i2]? with
    | none => none
    | some c =>
      if c = 0 then none
      else if c = eqSign then some (some (i2 + 1))
      else some none
  | c :: s1, i2 =>
    match d[i2]? with
    | none => none
    | some c' =>
      if c = c' then
        if c = eqSign then some (some (i2 + 1)) else envmatch d s1 (i2 + 1)
      else some none

lemma strEnd_lt {d : List UInt8} {env nxt : Nat} (h : strEnd d env = some nxt) :
    env ≤ nxt ∧ nxt < d.length := by
  obtain ⟨k, hk, rfl⟩ := Option.map_eq_some_iff.mp h
  have hlt := (List.findIdx?_eq_some_iff_getElem.mp hk).1
  rw [List.length_drop] at hlt
  omega

def search (d : List UInt8) (varname : List UInt8) (env : Nat) :
    Option (Option (Nat × Nat × Nat)) :=
  match d[env]? with
  | none => none
  | some c =>
    if c = 0 then some none
    else
      match _hnxt : strEnd d env with
      | none => none
      | some nxt =>
        match envmatch d varname env with
        | none => none
        | some (some oldval) => some (some (env, nxt, oldval))
        | some none => search d varname (nxt + 1)
termination_by d.length - env
decreasing_by
  have := strEnd_lt _hnxt
  omega

/-! ### Loading -/

variable {b : Board}

def State.load (s : State b) (kmalloc : Option b.Ram) : State b × Bool :=
  if s.envPtr = true ∧ s.mtdInit = true then (s, true)
  else if s.envPtr = true then ((envInit s).1, (envInit s).2 == 0)
  else
    match kmalloc with
    | none => (s, false)
    | some ram =>
      let s := { s with envPtr := true, env := ram, nandBlock := 0 }
      ((envInit s).1, (envInit s).2 == 0)

/-! ### `wmt_getsyspara` -/

/-- What `wmt_getsyspara` stores and returns. -/
structure GetResult where
  varval : List UInt8
  varlen : Int
  rcode : Nat
deriving DecidableEq

def getData (d : List UInt8) (varname : CStr) (varlen : Int) : Option GetResult :=
  match search d varname.bytes 0 with
  | none => none
  | some found =>
    let value := match found with
      | none => []
      | some (_, nxt, k) => (d.drop k).take (nxt - k)
    -- The bytes are stored before the size of the buffer is tested.
    if (value.length : Int) > varlen then
      some { varval := value ++ [0], varlen := value.length, rcode := 1 }
    else
      some { varval := value ++ [0], varlen := varlen, rcode := if found.isNone then 1 else 0 }

/-- The value of a name, after the environment is loaded. -/
def wmtGetsyspara (s : State b) (kmalloc : Option b.Ram) (varname : CStr) (varlen : Int) :
    Option (State b × GetResult) :=
  match s.load kmalloc with
  | (s, false) => some (s, { varval := [], varlen := varlen, rcode := 1 })
  | (s, true) => (getData (s.env.view b) varname varlen).map fun r => (s, r)

/-! ### `wmt_setsyspara` -/

@[ext]
structure Buf (n : Nat) where
  bytes : List UInt8
  len : bytes.length = n
  stores : List Nat

def Buf.put {n : Nat} (buf : Buf n) (i : Nat) (c : UInt8) : Buf n where
  bytes := buf.bytes.set i c
  len := by rw [List.length_set, buf.len]
  stores := buf.stores ++ [i]

def Buf.puts {n : Nat} (buf : Buf n) (i : Nat) : List UInt8 → Buf n
  | [] => buf
  | c :: cs => (buf.put i c).puts (i + 1) cs

def baudrateTable : List Nat := [9600, 19200, 38400, 57600, 115200]

/-- `simple_strtoul(cp, NULL, 10)`: 64-bit arithmetic, cut to the 32 bits of an
`unsigned long`. -/
def simpleStrtoul (cp : List UInt8) : Nat :=
  (cp.takeWhile fun c => decide (0x30 ≤ c ∧ c ≤ 0x39)).foldl
    (fun result c => (result * 10 + (c.toNat - 0x30)) % 2 ^ 64) 0 % 2 ^ 32

/-- A `NULL` value is read. -/
def baudrateOk (varname : CStr) (varval : Option CStr) : Option Bool :=
  if varname.bytes = ascii "baudrate" then
    varval.map fun v => decide (simpleStrtoul v.bytes ∈ baudrateTable)
  else some true

def shift {n : Nat} (buf : Buf n) (env nxt : Nat) : Option (Buf n × Nat) :=
  match hc : buf.bytes[nxt]? with
  | none => none
  | some c =>
    let buf' := buf.put env c
    if c = 0 ∧ buf'.bytes[nxt + 1]? = some 0 then some (buf', env)
    else shift buf' (env + 1) (nxt + 1)
termination_by n - nxt
decreasing_by
  have := (List.getElem?_eq_some_iff.mp hc).1
  rw [buf.len] at this
  omega

def deleteEntry {n : Nat} (buf : Buf n) (env nxt : Nat) : Option (Buf n) :=
  match buf.bytes[nxt + 1]? with
  | none => none
  | some c =>
    if c = 0 then
      -- It is the last string: close the array behind the one before.
      if env > 0 then some (buf.put (env - 1 + 1) 0)
      else some ((buf.put env 0).put (env + 1) 0)
    else
      match shift buf env (nxt + 1) with
      | none => none
      | some (buf, env) => some (buf.put (env + 1) 0)

def endMark : List UInt8 → Option Nat
  | [] => none
  | c :: d =>
    if c ≠ 0 then (endMark d).map (· + 1)
    else
      match d with
      | [] => none
      | c' :: _ => if c' ≠ 0 then (endMark d).map (· + 1) else some 0

/-- The second component tells whether there was room for it. -/
def appendEntry {n : Nat} (buf : Buf n) (maxSize : Nat) (varname varval : List UInt8) :
    Option (Buf n × Bool) :=
  match endMark buf.bytes with
  | none => none
  | some env =>
    let env := if env > 0 then env + 1 else env
    let len := varname.length + 2 + varval.length
    if maxSize < env + len then some (buf, false)
    else
      let buf := buf.puts env (varname ++ [0])
      let env := env + varname.length
      let buf := buf.put env eqSign
      let buf := buf.puts (env + 1) (varval ++ [0])
      -- The end is marked with a double NUL.
      some (buf.put (env + 1 + varval.length + 1) 0, true)

/-- `NULL` or an empty string. -/
def noValue (varval : Option CStr) : Bool := varval.all fun v => v.bytes.isEmpty

/-- Deletes a definition, and appends the new one if it has a value. -/
def setData {n : Nat} (buf : Buf n) (maxSize : Nat) (varname : CStr) (varval : Option CStr) :
    Option (Buf n × Bool) := do
  match ← search buf.bytes varname.bytes 0 with
  | none =>
    if noValue varval then some (buf, false)
    else appendEntry buf maxSize varname.bytes ((varval.map CStr.bytes).getD [])
  | some (env, nxt, _) =>
    if ← baudrateOk varname varval then
      let buf ← deleteEntry buf env nxt
      if noValue varval then some (buf, true)
      else appendEntry buf maxSize varname.bytes ((varval.map CStr.bytes).getD [])
    else some (buf, false)

/-- The data as a buffer that records stores. -/
def State.buf (s : State b) : Buf (b.viewLen (b.norEnvMaxSize - 5)) where
  bytes := s.env.view b
  len := s.env.length_view b
  stores := []

/-- The state with other data. -/
def State.withBuf (s : State b) (buf : Buf (b.viewLen (b.norEnvMaxSize - 5))) : State b :=
  { s with env := s.env.withView b buf.bytes buf.len }

/-- Changes the data, and then both copies. -/
def wmtSetsyspara (s : State b) (kmalloc : Option b.Ram) (answers : Answers b) (varname : CStr)
    (varval : Option CStr) : Option (Outcome b) :=
  match s.load kmalloc with
  | (s, false) => some (.ret s 1)
  | (s, true) =>
    match setData s.buf b.envMaxSize varname varval with
    | none => none
    | some (buf, false) => some (.ret (s.withBuf buf) 1)
    | some (buf, true) => envUpdate (s.withBuf buf) answers

/-! ### Runs

With SPI or NOR boot a step gives the data in RAM any contents and calls `env_update`. If it fails,
or the power is lost, the board boots again (`CopyStep`). With NAND boot flash operations may fail
(`NandStep`). -/

open Lib

variable {b : Board}

def Outcome.flash : Outcome b → Flash b
  | .ret s _ => s.flash
  | .lost flash => flash

def Answer.Stops (a : Answer b) (left : Option b.Copy) : Prop := a = .err left ∨ a = .cut left

/-- All accesses succeed. -/
def allOk (b : Board) : Answers b := ⟨.ok, .ok, .ok⟩

/-! ### SPI and NOR boot -/

def State.copy (s : State b) (i : Nat) : Option b.Copy :=
  (b.mtdTable i).bind fun mtd => s.flash mtd.index 0

def EnvT.activate {n : Nat} (e : EnvT n) : EnvT n := { e with flags := 1 }

/-- What an update writes. -/
def State.activeImage (s : State b) : b.Copy := s.withCrc.env.image.activate

def Torn (cell : Option b.Copy) : Prop := ∃ e, cell = some e ∧ ¬e.CrcOk b

/-- What an access that stops can leave. -/
structure Answers.Sound (s : State b) (answers : Answers b) : Prop where
  erase : ∀ left, answers.erase.Stops left → left = s.copy s.envInvalid ∨ Torn left
  write : ∀ left, answers.write.Stops left → left = some s.activeImage ∨ Torn left
  retire : ∀ left, answers.retire.Stops left →
    left = s.copy s.envValid ∨ left = (s.copy s.envValid).map EnvT.retire

def Booted (s : State b) : Prop := ∃ u, readEnvAfterMtdInit u = (s, 0)

/-- New data, and how the update ends. -/
structure Update (b : Board) where
  buf : Buf (b.viewLen (b.norEnvMaxSize - 5))
  answers : Answers b

/-- One update, and a boot unless `env_update` returned `0`. A boot can follow in any case. -/
def CopyStep (op : Update b) (s t : State b) : Prop :=
  op.answers.Sound (s.withBuf op.buf) ∧
    ∃ o, envUpdate (s.withBuf op.buf) op.answers = some o ∧
      (o = .ret t 0 ∨ ∃ u : State b, u.flash = o.flash ∧ readEnvAfterMtdInit u = (t, 0))

/-- A state after updates of a board with two copies. -/
def CopyReachable (s : State b) : Prop := Reach Booted CopyStep s

/-! ### NAND boot -/

def Mtd.Good (mtd : Mtd) (j : Nat) : Prop := mtd.blockIsbad (j * mtd.erasesize) = false

def Clean (cell : Option b.Copy) : Prop := ∃ e, cell = some e ∧ (e.crc = 0xFFFFFFFF ∨ ¬e.CrcOk b)

/-- The calls of `env_update` that a boot can follow: the next good block is one of the nine that
`env_init` searches, and a failed erase leaves no copy that would be loaded before the next one. -/
structure Answers.Rotates (s : State b) (answers : Answers b) : Prop where
  window : answers = allOk b → ∀ r, NextGood b.dev1.Good s.nandBlock r → r < nandEnvBlkLength
  checksum : answers = allOk b → envCrc32 b (s.env.view b) ≠ 0xFFFFFFFF
  stale : ∀ left, answers.erase = .ok → answers.write = .ok → answers.retire.Stops left →
    Clean left ∨ nandEnvBlkLength ≤ s.nandBlock ∨
      ∀ r, NextGood b.dev1.Good s.nandBlock r →
        r < s.nandBlock ∨ ∀ j, r < j → ¬b.dev1.Good j

/-- `env_init` has succeeded. -/
def NandBooted (s : State b) : Prop := ∃ u, envInit u = (s, 0)

def NandStep (op : Update b) (s t : State b) : Prop :=
  op.answers.Rotates (s.withBuf op.buf) ∧
    ∃ rcode, envUpdate (s.withBuf op.buf) op.answers = some (.ret t rcode)

/-- A state after updates of a board with NAND. -/
def NandReachable (s : State b) : Prop := Reach NandBooted NandStep s

end Wm8850.Env
