import Mathlib.Data.BitVec
import Wm8850.Lib.Reach

/-! # The request queue of the I2C controller

A request is a list of messages. `i2c_send_request` queues one and starts its first message if it is
alone. The interrupt handler transfers byte after byte and goes on to the next message and the next
request.

Memory writes and bus registers are a log. An access outside of an array or buffer has no result.
The flags that shape a message on the bus, the field `restart` and the slave mode are left out. -/

namespace Wm8850.I2c

def EIO : Int := 5
def ETIMEDOUT : Int := 110

/-- `WMT_I2C_API_I2C_ADDR`. Requests to it are not sent. -/
def apiI2cAddr : Nat := 0x59

/-- A `struct i2c_msg`. -/
structure Msg where
  addr : Nat
  rd : Bool
  buf : List (BitVec 8)
deriving DecidableEq

def Msg.len (msg : Msg) : Nat := msg.buf.length

/-- The pointer to it is `id`. -/
structure Fifo where
  id : Nat
  msg : List Msg
  nonBlock : Bool
  xferLength : Nat
  xferMsgnum : Nat
deriving DecidableEq

/-- What the driver does on the bus, and how it ends a request. -/
inductive Event where
  | start (id msgnum : Nat)
  | write (id msgnum i : Nat) (byte : BitVec 8)
  | read (id msgnum i : Nat) (byte : BitVec 8)
  | callback (id : Nat)
  | wakeup (id : Nat)
deriving DecidableEq

/-- The queue of a bus, its flags, and a log of what was done. -/
structure Bus where
  queue : List Fifo
  isrNack : Bool
  isrTimeout : Bool
  isrIntPending : Bool
  log : List Event
deriving DecidableEq

/-! ### Start -/

/-- `wmt_i2c_transfer_msg` on the current message. A write gives its byte at `xfer_length` along, if
it has one. -/
def wmtI2cTransferMsg (f : Fifo) : Option (List Event) :=
  (f.msg[f.xferMsgnum]?).bind fun pmsg =>
    if pmsg.rd then some [.start f.id f.xferMsgnum]
    else if pmsg.len = 0 then some [.start f.id f.xferMsgnum]
    else (pmsg.buf[f.xferLength]?).map fun byte =>
      [.start f.id f.xferMsgnum, .write f.id f.xferMsgnum f.xferLength byte]

def startBuf (id : Nat) (pmsg : Msg) : List Event :=
  if pmsg.rd then
    if pmsg.len = 0 then [] else [.start id 0]
  else
    match pmsg.buf with
    | [] => [.start id 0]
    | byte :: _ => [.start id 0, .write id 0 0 byte]

def i2cSendRequest (b : Bus) (id : Nat) (msg : List Msg) (nonBlock : Bool) : Option Bus :=
  msg.head?.map fun pmsg =>
    if pmsg.addr = apiI2cAddr then b
    else
      let b := { b with isrNack := false, isrTimeout := false, isrIntPending := false }
      if b.queue = [] then
        { b with queue := [⟨id, msg, nonBlock, 1, 0⟩], log := b.log ++ startBuf id pmsg }
      else { b with queue := b.queue ++ [⟨id, msg, nonBlock, 0, 0⟩] }

/-- What a woken sender returns. -/
def waiterReturn (b : Bus) (msgNum : Nat) : Option Int :=
  if b.isrIntPending then
    if b.isrTimeout then some (- ETIMEDOUT)
    else if b.isrNack then some (- EIO)
    else some msgNum
  else none

/-! ### The interrupt -/

/-- The result of a finished byte. `current` is the request unless it is finished, `rest` those
behind it. -/
structure Outcome where
  events : List Event
  current : Option Fifo
  rest : List Fifo
  started : Bool
  wakeup : Bool

def goesOn (f : Fifo) (rest : List Fifo) (events : List Event) : Outcome :=
  ⟨events, some { f with xferLength := f.xferLength + 1 }, rest, false, false⟩

def nextMsg (f : Fifo) (rest : List Fifo) (events : List Event) : Option Outcome :=
  let f := { f with xferLength := 0, xferMsgnum := f.xferMsgnum + 1 }
  (wmtI2cTransferMsg f).map fun started =>
    ⟨events ++ started, some { f with xferLength := f.xferLength + 1 }, rest, true, false⟩

/-- A request ends with its callback or with a wakeup. -/
def finishEvent (f : Fifo) : Event := if f.nonBlock then .callback f.id else .wakeup f.id

/-- The end of a request. The next one is started, behind a write with the next value of its
`xfer_msgnum`. -/
def finish (f : Fifo) (rest : List Fifo) (bump : Nat) (events : List Event) : Option Outcome :=
  match rest with
  | [] => some ⟨events ++ [finishEvent f], none, [], false, !f.nonBlock⟩
  | next :: rest =>
    let next := { next with xferLength := 0, xferMsgnum := next.xferMsgnum + bump }
    (wmtI2cTransferMsg next).map fun started =>
      ⟨events ++ [finishEvent f] ++ started, none,
        { next with xferLength := next.xferLength + 1 } :: rest, true, !f.nonBlock⟩

def byteEnd (f : Fifo) (rest : List Fifo) (cdr : BitVec 8) : Option Outcome :=
  (f.msg[f.xferMsgnum]?).bind fun pmsg =>
    if pmsg.rd then
      if f.xferLength = 0 ∨ f.xferLength > pmsg.len then none
      else
        let stored := [Event.read f.id f.xferMsgnum (f.xferLength - 1) cdr]
        if f.xferLength + 1 = pmsg.len then some (goesOn f rest stored)
        else if f.xferLength = pmsg.len then
          if f.xferMsgnum + 1 < f.msg.length then nextMsg f rest stored
          else finish f rest 0 stored
        else some (goesOn f rest stored)
    else if f.xferLength = pmsg.len then
      if f.xferMsgnum + 1 < f.msg.length then nextMsg f rest [] else finish f rest 1 []
    else
      (pmsg.buf[f.xferLength]?).map fun byte =>
        goesOn f rest [.write f.id f.xferMsgnum f.xferLength byte]

/-- `isr_reg`, and the byte in `cdr_reg`. The third flag, `I2C_ISR_SCL_TIME_OUT`, is only
cleared. -/
structure Status where
  nackAddr : Bool
  byteEnd : Bool
  cdr : BitVec 8

def nacked (b : Bus) : Bus :=
  { b with
    queue := b.queue.tail
    isrNack := true
    isrIntPending := true
    log := b.log ++ (b.queue.head?.map fun f => Event.wakeup f.id).toList }

/-- `i2c_wmt_handler`. With both flags the second branch works on the request that the first one has
taken off the queue. -/
def i2cWmtHandler (b : Bus) (status : Status) : Option Bus :=
  let fifoHead := b.queue.head?
  let rest := b.queue.tail
  let b := if status.nackAddr then nacked b else b
  if status.byteEnd then
    fifoHead.bind fun f =>
      (byteEnd f rest status.cdr).map fun o =>
        { b with
          queue := if status.nackAddr then o.rest else o.current.toList ++ o.rest
          isrNack := if o.started then false else b.isrNack
          isrTimeout := if o.started then false else b.isrTimeout
          isrIntPending := b.isrIntPending || o.wakeup
          log := b.log ++ o.events }
  else some b

/-! ### Runs

`requestEvents` is what a request is for: the bytes of its messages in order, then one wakeup or
callback. `Event.shape` leaves out the byte that a read stores. -/

open Lib

/-- The event without a byte that is read. -/
def Event.shape : Event → Event
  | .read id msgnum i _ => .read id msgnum i 0#8
  | event => event

def byteEvent (id msgnum : Nat) (msg : Msg) (i : Nat) : Event :=
  if msg.rd then .read id msgnum i 0#8 else .write id msgnum i (msg.buf.getD i 0#8)

def bytesFrom (id msgnum : Nat) (msg : Msg) (i : Nat) : List Event :=
  (List.range' i (msg.len - i)).map (byteEvent id msgnum msg)

def msgsEvents (id : Nat) : Nat → List Msg → List Event
  | _, [] => []
  | msgnum, msg :: rest =>
    (.start id msgnum :: bytesFrom id msgnum msg 0) ++ msgsEvents id (msgnum + 1) rest

/-- What a request is to do. -/
def requestEvents (f : Fifo) : List Event := msgsEvents f.id 0 f.msg ++ [finishEvent f]

/-- What is left of the request at the head. Of a read the byte before `xfer_length` comes with the
next interrupt, of a write it is already on the bus. -/
def leftOf (f : Fifo) : List Event :=
  ((f.msg[f.xferMsgnum]?).map fun msg =>
    bytesFrom f.id f.xferMsgnum msg (if msg.rd then f.xferLength - 1 else f.xferLength) ++
      msgsEvents f.id (f.xferMsgnum + 1) (f.msg.drop (f.xferMsgnum + 1)) ++ [finishEvent f]).getD []

def left : List Fifo → List Event
  | [] => []
  | f :: rest => leftOf f ++ (rest.map requestEvents).flatten

def msgsIrqs (msgs : List Msg) : Nat := (msgs.map Msg.len).sum

def irqsOf (f : Fifo) : Nat :=
  ((f.msg[f.xferMsgnum]?).map fun msg => msg.len - f.xferLength + 1).getD 0 +
    msgsIrqs (f.msg.drop (f.xferMsgnum + 1))

/-- The interrupts until the queue is empty. -/
def irqsLeft : List Fifo → Nat
  | [] => 0
  | f :: rest => irqsOf f + (rest.map fun f => msgsIrqs f.msg).sum

/-- The bus, and the requests that were sent. -/
structure State where
  bus : Bus
  sent : List Fifo

/-- An idle bus. -/
def Initial (s : State) : Prop := s = ⟨⟨[], false, false, false, []⟩, []⟩

/-- What happens: a request, an interrupt, or nothing. -/
inductive Op where
  | send (msg : List Msg) (nonBlock : Bool)
  | irq (status : Status)
  | idle

def State.request (s : State) (msg : List Msg) (nonBlock : Bool) : Fifo :=
  ⟨s.sent.length, msg, nonBlock, 0, 0⟩

/-- A step on the bus. -/
inductive Step : Op → State → State → Prop where
  | send {s : State} {msg : List Msg} {nonBlock : Bool} {b : Bus}
      (haddr : ∀ pmsg ∈ msg.head?, pmsg.addr ≠ apiI2cAddr)
      (hsend : i2cSendRequest s.bus s.sent.length msg nonBlock = some b) :
      Step (.send msg nonBlock) s ⟨b, s.sent ++ [s.request msg nonBlock]⟩
  | irq {s : State} {status : Status} {b : Bus} (hirq : i2cWmtHandler s.bus status = some b) :
      Step (.irq status) s { s with bus := b }
  | idle {s : State} : Step .idle s s

def EndsInRead (f : Fifo) : Prop := ∃ msg ∈ f.msg.getLast?, msg.rd = true

/-- Requests that the handler can work on: no message is empty, and a request is sent while others
are queued only if all of these end in a read. -/
structure SendFits (s : State) (msg : List Msg) : Prop where
  nonempty : ∀ m ∈ msg, 0 < m.len
  behind : ∀ f ∈ s.bus.queue, EndsInRead f

/-- A request that is not acknowledged is alone in the queue, and it is a blocking one. -/
def NackFits (s : State) : Prop := ∃ f, s.bus.queue = [f] ∧ f.nonBlock = false

/-- A step in which the slave acknowledges and a request fits. -/
def AckStep (op : Op) (s t : State) : Prop :=
  Step op s t ∧ match op with
    | .send msg _ => SendFits s msg
    | .irq status => status.nackAddr = false ∧ status.byteEnd = true
    | .idle => True

def FitStep (op : Op) (s t : State) : Prop :=
  Step op s t ∧ match op with
    | .send msg _ => SendFits s msg
    | .irq status => (status.nackAddr = false ∧ status.byteEnd = true) ∨
        (status.nackAddr = true ∧ status.byteEnd = false ∧ NackFits s)
    | .idle => True

/-! ### Senders that wait

The sender of a blocking request is in `wait_event` until it reads `isr_int_pending`, which is one
flag for all of them. -/

/-- `waiting` has the requests of the senders in `wait_event`. -/
structure Watched where
  state : State
  waiting : List Nat

/-- A step on the bus, or a sender that wakes up. -/
inductive WatchedOp where
  | bus (op : Op)
  | wake (id : Nat)

/-- The operation on the bus. To read the flags is none. -/
def WatchedOp.toOp : WatchedOp → Op
  | .bus op => op
  | .wake _ => .idle

/-- A blocking request adds its sender. -/
def Watched.waitingAfter (w : Watched) : Op → List Nat
  | .send _ false => w.state.sent.length :: w.waiting
  | _ => w.waiting

inductive WatchedStep : WatchedOp → Watched → Watched → Prop where
  | bus {w : Watched} {op : Op} {t : State} (h : Step op w.state t) :
      WatchedStep (.bus op) w ⟨t, w.waitingAfter op⟩
  | wake {w : Watched} {id : Nat} (hid : id ∈ w.waiting)
      (hpending : w.state.bus.isrIntPending = true) :
      WatchedStep (.wake id) w { w with waiting := w.waiting.filter (· ≠ id) }

/-- The request is still in the queue. -/
def Watched.IsQueued (w : Watched) (id : Nat) : Prop := ∃ f ∈ w.state.bus.queue, f.id = id

/-- A request is sent only after the senders of all finished ones have read the flags, and the
sender of a request that is not acknowledged has not read them before. -/
def WatchedFit (op : WatchedOp) (w t : Watched) : Prop :=
  WatchedStep op w t ∧ FitStep op.toOp w.state t.state ∧ match op with
    | .bus (.send _ _) => ∀ id ∈ w.waiting, w.IsQueued id
    | .bus (.irq status) =>
      status.nackAddr = true → ∀ f ∈ w.state.bus.queue, f.id ∈ w.waiting
    | _ => True

/-- A series of interrupts at the end of a byte. -/
def byteEnds (b : Bus) (values : List (BitVec 8)) : Option Bus :=
  values.foldlM (fun b value => i2cWmtHandler b ⟨false, true, value⟩) b

end Wm8850.I2c
