import Wm8850.Env.State

/-! # Loading the environment and writing it back

`env_init` loads the environment: from one of the two copies with SPI or NOR boot, from the first
good copy among nine erase blocks with NAND boot. `env_update` writes the buffer to the other copy,
or to the next good erase block, and then invalidates the copy before. -/

namespace Wm8850.Env

variable {b : Board}

def State.read (s : State b) (mtd : Mtd) (offs : Nat) : Option (State b) :=
  (s.flash mtd.index offs).map fun e => { s with env := e.readInto s.env }

/-! ### SPI and NOR boot -/

/-- The second component is the return value if the function returns in this turn. -/
def readTurn (s : State b) (i : Nat) (mtd : Mtd) : State b × Option Nat :=
  match s.read mtd 0 with
  | none => (s, some 1)
  | some s =>
    if s.env.CrcOk b then
      if s.env.flags = 1 then
        ({ s with envValid := i, envInvalid := if i = 0 then 1 else 0 }, some 0)
      else
        let s := if s.env.flags = 0 then { s with envInvalid := i } else s
        if s.envValid ≠ envInvalidIndex ∧ s.envInvalid ≠ envInvalidIndex then (s, some 0)
        else (s, none)
    else (s, none)

def readObsolete (s : State b) : State b × Nat :=
  if s.envValid = envInvalidIndex ∧ s.envInvalid ≠ envInvalidIndex then
    match (b.mtdTable s.envInvalid).bind fun mtd => s.read mtd 0 with
    | none => (s, 1)
    | some s =>
      if s.envInvalid = 0 then ({ s with envValid := 0, envInvalid := 1 }, 0)
      else ({ s with envValid := 1, envInvalid := 0 }, 0)
  else (s, 1)

/-- The active copy, or else one that is obsolete. -/
def readEnvAfterMtdInit (s : State b) : State b × Nat :=
  let s := { s with envValid := envInvalidIndex, envInvalid := envInvalidIndex }
  match readTurn s 0 b.dev1 with
  | (s, some rcode) => (s, rcode)
  | (s, none) =>
    match readTurn s 1 b.dev2 with
    | (s, some rcode) => (s, rcode)
    | (s, none) => readObsolete s

/-! ### NAND boot -/

/-- `mtd->read` for a NAND partition: a read behind its end transfers no bytes. -/
def State.readNand (s : State b) (mtd : Mtd) (offs : Nat) : Option (State b) :=
  if mtd.size ≤ offs then some s else s.read mtd offs

def nextOffs (mtd : Mtd) (blkCnt offs : Nat) : Nat :=
  if blkCnt = nandEnvBlkLength then 0 else offs + mtd.erasesize

theorem next_decreases {mtd : Mtd} {blkCnt offs offs' : Nat} (h : blkCnt < nandEnvBlkLength * 2 ∨
      offs < nandEnvBlkLength * mtd.erasesize ∧ offs + mtd.erasesize ≤ offs') :
    Prod.Lex (· < ·) (· < ·) (nandEnvBlkLength * 2 - (blkCnt + 1),
      nandEnvBlkLength * mtd.erasesize - offs')
      (nandEnvBlkLength * 2 - blkCnt, nandEnvBlkLength * mtd.erasesize - offs) := by
  have := mtd.room
  by_cases hcnt : blkCnt < nandEnvBlkLength * 2
  · exact .left _ _ (by omega)
  · rw [show nandEnvBlkLength * 2 - (blkCnt + 1) = nandEnvBlkLength * 2 - blkCnt by omega]
    exact .right _ (by omega)

/-- A bad block counts as a visit. At the ninth visit the loop over bad blocks jumps to `next_blk`
before it changes `offs`, so it looks at the same block again. -/
def nextBlk (mtd : Mtd) (s : State b) (blkCnt offs : Nat) : State b × Nat :=
  if offs < nandEnvBlkLength * mtd.erasesize ∧ mtd.blockIsbad offs = true then
    if blkCnt + 1 = nandEnvBlkLength then nextBlk mtd s (blkCnt + 1) offs
    else nextBlk mtd s (blkCnt + 1) (offs + mtd.erasesize)
  else if nandEnvBlkLength * 2 ≤ blkCnt then (s, 1)
  else
    match s.readNand mtd offs with
    | none => (s, 1)
    | some s =>
      if s.env.crc = 0xFFFFFFFF ∧ blkCnt < nandEnvBlkLength then
        nextBlk mtd s (blkCnt + 1) (nextOffs mtd (blkCnt + 1) offs)
      else if s.env.CrcOk b then
        ({ s with envValid := mtd.index, nandBlock := blkCnt % nandEnvBlkLength }, 0)
      else if blkCnt + 1 < nandEnvBlkLength * 2 then
        nextBlk mtd s (blkCnt + 1) (nextOffs mtd (blkCnt + 1) offs)
      else (s, 1)
termination_by (nandEnvBlkLength * 2 - blkCnt, nandEnvBlkLength * mtd.erasesize - offs)
decreasing_by all_goals exact next_decreases (by simp only [nandEnvBlkLength] at *; omega)

/-- The blocks that `nextBlk` looks at: the offset, and whether the environment is read there. -/
def visits (mtd : Mtd) (s : State b) (blkCnt offs : Nat) : List (Nat × Bool) :=
  if offs < nandEnvBlkLength * mtd.erasesize ∧ mtd.blockIsbad offs = true then
    (offs, false) :: (if blkCnt + 1 = nandEnvBlkLength then visits mtd s (blkCnt + 1) offs
      else visits mtd s (blkCnt + 1) (offs + mtd.erasesize))
  else if nandEnvBlkLength * 2 ≤ blkCnt then []
  else
    (offs, true) :: match s.readNand mtd offs with
      | none => []
      | some s =>
        if s.env.crc = 0xFFFFFFFF ∧ blkCnt < nandEnvBlkLength then
          visits mtd s (blkCnt + 1) (nextOffs mtd (blkCnt + 1) offs)
        else if s.env.CrcOk b then []
        else if blkCnt + 1 < nandEnvBlkLength * 2 then
          visits mtd s (blkCnt + 1) (nextOffs mtd (blkCnt + 1) offs)
        else []
termination_by (nandEnvBlkLength * 2 - blkCnt, nandEnvBlkLength * mtd.erasesize - offs)
decreasing_by all_goals exact next_decreases (by simp only [nandEnvBlkLength] at *; omega)

/-- `env_init` when the partitions are registered. -/
def envInit (s : State b) : State b × Nat :=
  let s := { s with mtdInit := true }
  match b.boot with
  | .nand => nextBlk b.dev1 s 0 0
  | .spi | .nor => readEnvAfterMtdInit s
  | .emmc => (s, 1)

/-! ### Before the partitions are registered

`get_mtd_device_nm` fails then, and `env_init` takes the numbers of the partitions from
`boot_partitions` (with SPI boot) or `nor_partitions` (with `CONFIG_MTD_WMT_NOR`). -/

def bootPartitions : List String :=
  ["filesystem-SF", "kernel-SF", "u-boot-SF", "u-boot env. cfg. 1-SF", "u-boot env. cfg. 2-SF",
    "w-load-SF"]

/-- The numbers of the two partitions, `uenv`. -/
def Board.uenv (b : Board) (norPartitions : List String) : Nat × Nat :=
  match b.boot with
  | .spi => (bootPartitions.idxOf "u-boot env. cfg. 1-SF",
    bootPartitions.idxOf "u-boot env. cfg. 2-SF")
  | .nor =>
    if b.norErase.isSome then
      (norPartitions.idxOf "u-boot env. cfg. 1-NOR", norPartitions.idxOf "u-boot env. cfg. 2-NOR")
    else (envInvalidIndex, envInvalidIndex)
  | _ => (envInvalidIndex, envInvalidIndex)

/-- One turn of `read_env_before_mtd_init`. The copy is read from the mapped flash. -/
def earlyTurn (s : State b) (uenv : Nat × Nat) (env : Nat) (copy : Option b.Copy) :
    State b × Option Nat :=
  if env = envInvalidIndex then (s, some 1)
  else
    match copy with
    | none => (s, some 1)
    | some e =>
      let s := { s with env := e.readInto s.env }
      if s.env.flags = 1 ∧ s.env.CrcOk b then
        ({ s with envValid := env, envInvalid := if env = uenv.1 then uenv.2 else uenv.1 }, some 0)
      else (s, none)

def readEnvBeforeMtdInit (s : State b) (uenv : Nat × Nat) (copies : Bool → Option b.Copy) :
    State b × Nat :=
  match earlyTurn s uenv uenv.1 (copies false) with
  | (s, some rcode) => (s, rcode)
  | (s, none) =>
    match earlyTurn s uenv uenv.2 (copies true) with
    | (s, some rcode) => (s, rcode)
    | (s, none) => (s, 1)

/-- The variables, if `mtd_table` is filled, and `readed`. -/
structure Kernel (b : Board) where
  state : State b
  table : Bool
  readed : Bool

/-- `env_init`. If the partitions are not registered, a table that was filled before stays. -/
def Kernel.envInit (k : Kernel b) (registered : Bool) (norPartitions : List String)
    (copies : Bool → Option b.Copy) : Kernel b × Nat :=
  if registered then
    let r := Env.envInit k.state
    ({ k with state := r.1, table := true }, r.2)
  else
    match b.boot with
    | .nand | .emmc => (k, 1)
    | .spi | .nor =>
      if k.table then
        let r := readEnvAfterMtdInit k.state
        ({ k with state := r.1 }, r.2)
      else if k.readed then (k, 0)
      else
        let r := readEnvBeforeMtdInit k.state (b.uenv norPartitions) copies
        ({ k with state := r.1, readed := r.2 = 0 }, r.2)

/-! ### Writing the environment back -/

/-- How the three accesses of an update end. -/
structure Answers (b : Board) where
  erase : Answer b
  write : Answer b
  retire : Answer b

/-- An operation that leaves `done` if it succeeds. `env_update` returns `1` if it fails. -/
def flashOp (s : State b) (dev offs : Nat) (answer : Answer b) (done : Option b.Copy)
    (rest : State b → Outcome b) : Outcome b :=
  match answer with
  | .ok => rest (s.setCell dev offs done)
  | .err left => .ret (s.setCell dev offs left) 1
  | .cut left => .lost (s.setCell dev offs left).flash

def EnvT.retire {n : Nat} (e : EnvT n) : EnvT n := { e with flags := 0 }

def updateCopies (s : State b) (valid invalid : Mtd) (answers : Answers b) : Outcome b :=
  flashOp s invalid.index 0 answers.erase (some (EnvT.erased b)) fun s =>
  -- `flags` is `0` if only an obsolete copy was found.
  let s := if s.env.flags = 0 then { s with env := { s.env with flags := 1 } } else s
  flashOp s invalid.index 0 answers.write (some s.env.image) fun s =>
  flashOp s valid.index 0 answers.retire ((s.flash valid.index 0).map EnvT.retire) fun s =>
  .ret { s with envValid := s.envInvalid, envInvalid := s.envValid } 0

def Mtd.wrap (mtd : Mtd) (offs : Nat) : Nat := if mtd.size ≤ offs then 0 else offs

/-- The loop of `env_update` for a good block, and the test after it. A good block that is the last
one to be checked is refused. -/
def goodBlock (mtd : Mtd) (offs chkOffs : Nat) : Option Nat :=
  if chkOffs < mtd.size then
    if mtd.blockIsbad offs then
      goodBlock mtd (mtd.wrap (offs + mtd.erasesize)) (chkOffs + mtd.erasesize)
    else if mtd.size ≤ chkOffs + mtd.erasesize then none
    else some offs
  else none
termination_by mtd.size - chkOffs
decreasing_by
  have := mtd.room
  omega

def newBlock (mtd : Mtd) (origBlock : Nat) : Option Nat :=
  goodBlock mtd (mtd.wrap ((origBlock + 1) * mtd.erasesize)) 0

/-- The erase of the original block fails if it lies behind the end of the partition. -/
def updateNand (s : State b) (mtd : Mtd) (answers : Answers b) : Outcome b :=
  match newBlock mtd s.nandBlock with
  | none => .ret s 1
  | some offs =>
    let origOffs := s.nandBlock * mtd.erasesize
    flashOp s mtd.index offs answers.erase (some (EnvT.erased b)) fun s =>
    flashOp s mtd.index offs answers.write (some s.env.image) fun s =>
    let s := { s with nandBlock := offs / mtd.erasesize }
    if mtd.size ≤ origOffs then .ret s 1
    else
      flashOp s mtd.index origOffs answers.retire (some (EnvT.erased b)) fun s => .ret s 0

def State.withCrc (s : State b) : State b :=
  { s with env := { s.env with crc := envCrc32 b (s.env.view b) } }

/-- With NAND boot it also tests `mtd_table[env_invalid]`, and what it sets up then is
overwritten. -/
def envUpdate (s : State b) (answers : Answers b) : Option (Outcome b) :=
  let s := s.withCrc
  match b.boot with
  | .nand => (b.mtdTable s.envValid).map fun mtd => updateNand s mtd answers
  | _ =>
    (b.mtdTable s.envValid).bind fun valid =>
      (b.mtdTable s.envInvalid).map fun invalid => updateCopies s valid invalid answers

end Wm8850.Env
