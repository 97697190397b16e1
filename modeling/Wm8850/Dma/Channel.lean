import Mathlib.Data.BitVec
import Wm8850.Lib.Word
import Wm8850.Lib.Reach

/-! # The descriptor ring of a DMA channel

A channel works on a ring of descriptors: a word with byte count and flags, and an address. The last
one also has the address of the first. `add_descript` writes the descriptors of a buffer from
`des0cnt` on and counts them in `residue_des0cnt`; each interrupt takes one off.

The local variable `descript_attr`, which is not set before the loop, is a parameter. A `Chan` is
one of the channels: a number that is too large is not modelled. -/

namespace Wm8850.Dma

open Lib Function

def EBUSY : Int := 16
def ENODEV : Int := 19
def EINVAL : Int := 22
def EOVERFLOW : Int := 75

def size32KB : Nat := 0x8000
def size64KB : Nat := 0x10000

def desEnd : BitVec 32 := 0x80000000#32

def formatDes1 : BitVec 32 := 0x40000000#32

def intenDes : BitVec 32 := 0x20000000#32

def reqcntMask : BitVec 32 := 0xFFFF#32

/-- The configuration of the device. -/
structure Cfg where
  deviceReqType : Nat
  chunkSize : Nat

/-- The fields of a short descriptor before it is packed. -/
structure Attr where
  endDescript : Nat
  interruptEn : Nat
  size : Nat
  fmt : Nat
  dataAddr : Nat
  branchAddr : Nat

/-- A channel with its ring of short descriptors. -/
structure Chan where
  inUse : Bool
  deviceNo : Nat
  deviceCfg : Cfg
  des0cnt : Nat
  maxDes0cnt : Nat
  residueDes0cnt : Int
  accuSize : Nat
  des0 : Nat → BitVec 32
  des0PhyAddr : Nat

def badChan (c : Chan) (cfg : Cfg) : Option Int :=
  if c.inUse = false then some (- EINVAL)
  else if c.deviceNo ≠ cfg.deviceReqType then some (- ENODEV)
  else none

def createFmt0Descript (c : Chan) (cfg : Cfg) (attr : Attr) : Int × Chan :=
  match badChan c cfg with
  | some ret => (ret, c)
  | none =>
    let reqCnt : BitVec 32 := if attr.interruptEn = 1 then intenDes else 0#32
    let reqCnt := if attr.endDescript = 1 then reqCnt ||| desEnd else reqCnt
    if attr.size > size64KB - 1 then (- EOVERFLOW, c)
    else
      let offset := c.des0cnt * 2
      let des0 := update c.des0 offset (reqCnt ||| BitVec.ofNat 32 attr.size)
      let des0 := update des0 (offset + 1) (BitVec.ofNat 32 attr.dataAddr)
      (0, { c with des0 := des0, des0cnt := c.des0cnt + 1 })

def createFmt1Descript (c : Chan) (cfg : Cfg) (attr : Attr) : Int × Chan :=
  match badChan c cfg with
  | some ret => (ret, c)
  | none =>
    let reqCnt : BitVec 32 := if attr.interruptEn = 1 then intenDes else 0#32
    let reqCnt := if attr.endDescript = 1 then reqCnt ||| desEnd else reqCnt
    let reqCnt := if attr.fmt = 1 then reqCnt ||| formatDes1 else reqCnt
    if attr.size > size64KB - 1 then (- EOVERFLOW, c)
    else
      let offset := (c.maxDes0cnt - 1) * 2
      let des0 := update c.des0 offset (reqCnt ||| BitVec.ofNat 32 attr.size)
      let des0 := update des0 (offset + 1) (BitVec.ofNat 32 attr.dataAddr)
      let des0 := update des0 (offset + 2) (BitVec.ofNat 32 attr.branchAddr)
      (0, { c with des0 := des0, des0cnt := 0 })

def clearLastDescript (c : Chan) (cfg : Cfg) : Int × Chan :=
  let offset := if 0 < c.des0cnt then (c.des0cnt - 1) * 2 else (c.maxDes0cnt - 1) * 2
  match badChan c cfg with
  | some ret => (ret, c)
  | none => (0, { c with des0 := update c.des0 offset (c.des0 offset &&& ~~~desEnd) })

structure AddLoop where
  chan : Chan
  attr : Attr
  dmaPtr : Nat
  residueSize : Nat
  xferIndex : Nat

def createDescript (c : Chan) (cfg : Cfg) (attr : Attr) : Attr × Chan :=
  if (c.des0cnt : Int) < c.maxDes0cnt - 1 then
    let attr := { attr with fmt := 0 }
    (attr, (createFmt0Descript c cfg attr).2)
  else
    let attr := { attr with branchAddr := c.des0PhyAddr, fmt := 1 }
    (attr, (createFmt1Descript c cfg attr).2)

def nextAttr (cfg : Cfg) (attr : Attr) (residueSize accuSize dmaPtr xferSize : Nat) : Attr :=
  { attr with
    endDescript := if residueSize ≤ size32KB then 1 else attr.endDescript
    interruptEn := if accuSize ≥ cfg.chunkSize then 1 else attr.interruptEn
    dataAddr := dmaPtr
    size := xferSize }

def addStep (cfg : Cfg) (size : Nat) (l : AddLoop) : AddLoop :=
  let c := if l.residueSize = size then (clearLastDescript l.chan cfg).2 else l.chan
  let xferSize := if l.residueSize > size32KB then size32KB else l.residueSize
  let accuSize := wadd c.accuSize xferSize
  let residueSize := if l.residueSize > size32KB then l.residueSize - size32KB else 0
  let dmaPtr := wadd l.dmaPtr (xferSize * l.xferIndex)
  let attr := nextAttr cfg l.attr residueSize accuSize dmaPtr xferSize
  let c := { c with accuSize := if accuSize ≥ cfg.chunkSize then xferSize else accuSize }
  let created := createDescript c cfg attr
  ⟨created.2, created.1, dmaPtr, residueSize, l.xferIndex + 1⟩

lemma residueSize_addStep (cfg : Cfg) (size : Nat) (l : AddLoop) :
    (addStep cfg size l).residueSize = l.residueSize - size32KB := by
  show (if l.residueSize > size32KB then l.residueSize - size32KB else 0) = _
  split <;> omega

def addLoop (cfg : Cfg) (size : Nat) (l : AddLoop) : AddLoop :=
  if 0 < l.residueSize then addLoop cfg size (addStep cfg size l) else l
termination_by l.residueSize
decreasing_by
  rw [residueSize_addStep]
  unfold size32KB
  omega

/-- The descriptors for a transfer, of up to 32 KB each. -/
def needCount (size : Nat) : Nat := size / size32KB + if size % size32KB ≠ 0 then 1 else 0

def addDescript (c : Chan) (cfg : Cfg) (garbage : Attr) (dmaPtr size : Nat) : Int × Chan :=
  match badChan c cfg with
  | some ret => (ret, c)
  | none =>
    if c.maxDes0cnt - c.residueDes0cnt < needCount size then (- EBUSY, c)
    else
      let l := addLoop cfg size ⟨c, garbage, dmaPtr, size, 0⟩
      (l.xferIndex, l.chan)

/-! ### The calls and the interrupt -/

def wmtStartDma (c : Chan) (garbage : Attr) (dmaPtr size : Nat) : Int × Chan :=
  if size = 0 then (- EINVAL, c)
  else
    let added := addDescript c c.deviceCfg garbage dmaPtr size
    if added.1 < 0 then (- EBUSY, added.2)
    else
      let c := added.2
      let residue := c.residueDes0cnt + added.1
      let residue := if residue > c.maxDes0cnt - 1 then (c.maxDes0cnt : Int) - 1 else residue
      (0, { c with residueDes0cnt := residue })

def wmtWakeDma (c : Chan) (running : Bool) (garbage : Attr) (dmaPtr size : Nat) : Int × Chan :=
  if size = 0 then (- EINVAL, c)
  else if size > c.deviceCfg.chunkSize then (- EOVERFLOW, c)
  else if running then
    let added := addDescript c c.deviceCfg garbage dmaPtr size
    (added.1, { added.2 with residueDes0cnt := added.2.residueDes0cnt + added.1 })
  else (0, c)

/-- The words of the descriptor at `des_offset / 4`, where the channel has stopped with `reqCount`
bytes left. -/
def reviseDescript (c : Chan) (cfg : Cfg) (offset : Nat) (reqCount dataAddress : BitVec 32) :
    Int × Chan :=
  match badChan c cfg with
  | some ret => (ret, c)
  | none =>
    let reqCount := reqCount &&& reqcntMask
    if 0#32 < reqCount then
      let des0 := update c.des0 offset (c.des0 offset &&& ~~~reqcntMask ||| reqCount)
      (0, { c with des0 := update des0 (offset + 1) dataAddress })
    else (0, c)

/-- The event in the status of the channel, with the position that `wmt_get_dma_pos_info` gives. -/
inductive Event where
  | success
  | noStatus (offset : Nat) (reqCount dataAddress : BitVec 32)
  | error (offset : Nat) (reqCount dataAddress : BitVec 32)

def Event.IsError : Event → Prop
  | .error _ _ _ => True
  | _ => False

/-- After an error `wmt_resume_dma` goes on with the same descriptor. -/
def dmaIrqHandler (c : Chan) (event : Event) : Chan :=
  let count (c : Chan) : Chan :=
    if c.residueDes0cnt > 0 then { c with residueDes0cnt := c.residueDes0cnt - 1 } else c
  match event with
  | .success => count c
  | .noStatus offset reqCount dataAddress =>
    count (reviseDescript c c.deviceCfg offset reqCount dataAddress).2
  | .error offset reqCount dataAddress =>
    (reviseDescript c c.deviceCfg offset reqCount dataAddress).2

def wmtRequestDma (device : Nat) (cfg : Cfg) (des0PhyAddr : Nat) (des0 : Nat → BitVec 32) :
    Chan where
  inUse := true
  deviceNo := device
  deviceCfg := cfg
  des0cnt := 0
  maxDes0cnt := (0x400 - 0x10) / 8 + 1
  residueDes0cnt := 0
  accuSize := 0
  des0 := des0
  des0PhyAddr := des0PhyAddr

/-! ### Runs

In `AddStep` the steps are accepted calls of `add_descript`, with interrupts that change
`residue_des0cnt` between them; in `Step`, the calls of the driver and the interrupts. -/

/-- What the hardware reads in a descriptor. -/
structure Desc where
  addr : Nat
  count : Nat
  inten : Bool
  ends : Bool
deriving DecidableEq

def descAt (c : Chan) (slot : Nat) : Desc where
  addr := (c.des0 (slot * 2 + 1)).toNat
  count := (c.des0 (slot * 2) &&& reqcntMask).toNat
  inten := (c.des0 (slot * 2)).getLsbD 29
  ends := (c.des0 (slot * 2)).getLsbD 31

/-! ### Calls of `add_descript` -/

/-- A call of `add_descript` and what it finds on the stack. -/
structure AddCall where
  cfg : Cfg
  garbage : Attr
  dmaPtr : Nat
  size : Nat
  residue : Int

def AddCall.run (call : AddCall) (c : Chan) : Int × Chan :=
  addDescript { c with residueDes0cnt := call.residue } call.cfg call.garbage call.dmaPtr call.size

def parts (size : Nat) : List Nat :=
  List.replicate (size / size32KB) size32KB ++
    if size % size32KB = 0 then [] else [size % size32KB]

/-- What the interrupt flags are for: whether each part reaches the chunk size, where the sum starts
at `0` behind a part that does. The last component is the size of that part. -/
def accumulate (chunkSize : Nat) : Nat → Nat → List Nat → List Bool × Nat × Nat
  | accu, last, [] => ([], accu, last)
  | accu, last, part :: rest =>
    if chunkSize ≤ accu + part then
      let after := accumulate chunkSize 0 part rest
      (true :: after.1, after.2)
    else
      let after := accumulate chunkSize (accu + part) last rest
      (false :: after.1, after.2)

/-- A channel, and the right interrupt flags of all parts that were added. -/
structure AddState where
  chan : Chan
  reached : List Bool
  accu : Nat
  last : Nat

def AddState.after (s : AddState) (call : AddCall) : AddState :=
  let flags := accumulate call.cfg.chunkSize s.accu s.last (parts call.size)
  ⟨(call.run s.chan).2, s.reached ++ flags.1, flags.2.1, flags.2.2⟩

/-- A channel that was just requested. -/
def AddInitial (s : AddState) : Prop :=
  ∃ device cfg phyAddr des0, s = ⟨wmtRequestDma device cfg phyAddr des0, [], 0, 0⟩

/-- A call that is not refused. -/
inductive AddStep : AddCall → AddState → AddState → Prop where
  | add {s : AddState} (call : AddCall) (hok : 0 ≤ (call.run s.chan).1) :
      AddStep call s (s.after call)

/-- The calls after which the flags are right. There is one part. Where it does not reach the chunk
size, it does not do so either together with the part that reached it before, and `interrupt_en` is
not set by chance. -/
structure AddCall.Fits (call : AddCall) (s : AddState) : Prop where
  size : call.size ≤ size32KB
  inten : 0 < call.size → s.accu + call.size < call.cfg.chunkSize →
    s.accu + s.last + call.size < call.cfg.chunkSize ∧ call.garbage.interruptEn ≠ 1
  chunk : call.cfg.chunkSize + size32KB ≤ wordSize

/-- A call that meets `AddCall.Fits`. -/
def FittingAdd (call : AddCall) (s t : AddState) : Prop := AddStep call s t ∧ call.Fits s

/-- Of the descriptors in the ring only the last one added has the end flag, and the interrupt flags
are those of `reached`. -/
structure FlagsRight (s : AddState) : Prop where
  ends : ∀ k < s.reached.length, s.reached.length ≤ k + s.chan.maxDes0cnt →
    ((descAt s.chan (k % s.chan.maxDes0cnt)).ends = true ↔ k + 1 = s.reached.length)
  inten : ∀ k flag, s.reached[k]? = some flag → s.reached.length ≤ k + s.chan.maxDes0cnt →
    (descAt s.chan (k % s.chan.maxDes0cnt)).inten = flag

/-! ### Calls of the driver -/

/-- A channel, and how many descriptors were added and finished. -/
structure State where
  chan : Chan
  added : Nat
  finished : Nat

def addedBy (c : Chan) (garbage : Attr) (dmaPtr size : Nat) : Nat :=
  (addDescript c c.deviceCfg garbage dmaPtr size).1.toNat

/-- What a run does: a transfer is started, woken up or interrupted. -/
inductive Op where
  | start (garbage : Attr) (dmaPtr size : Nat)
  | wake (running : Bool) (garbage : Attr) (dmaPtr size : Nat)
  | irq (event : Event)

/-- After `wmt_start_dma`. -/
def State.started (s : State) (garbage : Attr) (dmaPtr size : Nat) : State :=
  { s with
    chan := (wmtStartDma s.chan garbage dmaPtr size).2
    added := if size = 0 then s.added else s.added + addedBy s.chan garbage dmaPtr size }

def WakeAdds (c : Chan) (running : Bool) (size : Nat) : Prop :=
  running = true ∧ size ≠ 0 ∧ size ≤ c.deviceCfg.chunkSize

instance (c : Chan) (running : Bool) (size : Nat) : Decidable (WakeAdds c running size) :=
  inferInstanceAs (Decidable (_ ∧ _ ∧ _))

def State.woken (s : State) (running : Bool) (garbage : Attr) (dmaPtr size : Nat) : State :=
  { s with
    chan := (wmtWakeDma s.chan running garbage dmaPtr size).2
    added :=
      if WakeAdds s.chan running size then s.added + addedBy s.chan garbage dmaPtr size
        else s.added }

/-- A channel that was just requested, without a transfer. -/
def Initial (s : State) : Prop :=
  ∃ device cfg phyAddr des0, s = ⟨wmtRequestDma device cfg phyAddr des0, 0, 0⟩

/-- An interrupt that is not an error comes once for each descriptor that is finished. -/
inductive Step : Op → State → State → Prop where
  | start {s : State} (garbage : Attr) (dmaPtr size : Nat) :
      Step (.start garbage dmaPtr size) s (s.started garbage dmaPtr size)
  | wake {s : State} (running : Bool) (garbage : Attr) (dmaPtr size : Nat) :
      Step (.wake running garbage dmaPtr size) s (s.woken running garbage dmaPtr size)
  | finish {s : State} {event : Event} (hevent : ¬event.IsError) (hleft : s.finished < s.added) :
      Step (.irq event) s { s with chan := dmaIrqHandler s.chan event, finished := s.finished + 1 }
  | error {s : State} {event : Event} (hevent : event.IsError) :
      Step (.irq event) s { s with chan := dmaIrqHandler s.chan event }

/-- The calls after which the count is right: a start does not fill the ring to the last slot, and a
wake has room in the ring. -/
def Op.Fits (c : Chan) : Op → Prop
  | .start _ _ size => c.residueDes0cnt + needCount size ≠ c.maxDes0cnt
  | .wake running _ _ size => WakeAdds c running size →
    badChan c c.deviceCfg = none ∧ c.residueDes0cnt + needCount size ≤ c.maxDes0cnt
  | .irq _ => True

/-- A step that meets `Op.Fits`. -/
def FittingStep (op : Op) (s t : State) : Prop := Step op s t ∧ op.Fits s.chan

/-- Not an interrupt. -/
def Op.IsCall : Op → Prop
  | .irq _ => False
  | _ => True

end Wm8850.Dma
