import Mathlib.Data.BitVec

/-! # Reading from the display data channel

`hdmi_DDC_read` writes requests to `REG_HDMI_I2C_CTRL2` and polls a bit until one is taken, and
another bit until a byte is there. The controller is any machine: a type `σ` of states, which reads
and writes of the register may change. The driver is compiled with `HDMI_DDC_OUT`. Delays and
messages are left out. -/

namespace Wm8850.Hdmi

/-- The controller behind `REG_HDMI_I2C_CTRL2`, with the two writes to `REG_HDMI_I2C_CTRL`. -/
structure Controller (σ : Type) where
  inl : σ → BitVec 32 × σ
  outl : σ → BitVec 32 → σ
  setFreq : σ → σ
  reset : σ → σ

def statusStart : BitVec 32 := 0x10000#32

def statusStop : BitVec 32 := 0x20000#32

def statusWrAvail : BitVec 32 := 0x40000#32

def statusCpUse : BitVec 32 := 0x80000#32

def statusSwRead : BitVec 32 := 0x2000000#32

section
variable {σ : Type} (c : Controller σ)

def Controller.write (s : σ) (mask : BitVec 32) (shift : Nat) (val : BitVec 32) : σ :=
  let read := c.inl s
  c.outl read.2 ((read.1 &&& ~~~mask) ||| ((val <<< shift) &&& mask))

/-- With `condition` it waits for the bits to be cleared. The register is read once more at the
end. -/
def pollStatus (checkbits : BitVec 32) (condition : Bool) : Nat → σ → Bool × σ
  | 0, s => (false, (c.inl s).2)
  | n + 1, s =>
    let read := c.inl s
    if (read.1 &&& checkbits == 0#32) == condition then (true, read.2)
    else pollStatus checkbits condition n read.2

def maxloop : Nat := 500

def hdmiDdcCheckStatus (checkbits : BitVec 32) (condition : Bool) (s : σ) : Bool × σ :=
  let polled := pollStatus c checkbits condition maxloop s
  if polled.1 = false ∧ checkbits ≠ statusSwRead then (false, (c.inl polled.2).2) else polled

structure Request (σ : Type) where
  send : σ → σ
  checkbits : BitVec 32

def requests : List (Request σ) → σ → Bool × σ
  | [], s => (true, s)
  | r :: rest, s =>
    let checked := hdmiDdcCheckStatus c r.checkbits true (r.send s)
    if checked.1 then requests rest checked.2 else checked

def Controller.out (val : BitVec 32) (checkbits : BitVec 32) : Request σ :=
  ⟨fun s => c.outl s val, checkbits⟩

def Controller.wrData (byte : BitVec 32) : Request σ :=
  ⟨fun s => c.write (c.write s 0xFF#32 0 byte) 0x40000#32 18 1#32, statusWrAvail⟩

def enhancedRequests : List (Request σ) :=
  [⟨fun s => c.write s 0x50000#32 16 0x5#32, statusStart + statusWrAvail⟩,
    c.wrData 0x60#32, c.wrData 0x1#32]

def startRequests (index : Int) : List (Request σ) :=
  [c.out 0x50000#32 (statusStart + statusWrAvail),
    c.out 0x400A0#32 statusWrAvail,
    c.out (0x40000#32 ||| BitVec.ofInt 32 index) statusWrAvail,
    c.out 0x50000#32 (statusStart + statusWrAvail),
    c.out 0x400A1#32 statusWrAvail]

def stopRequest : Request σ :=
  ⟨fun s => c.write s 0x60000#32 17 3#32, statusStop + statusWrAvail + statusCpUse⟩

/-- How a call leaves its requests: with all of them taken, with an error in `err_cnt`, or with one
in `dbg_hdmi_ddc_read_err`. -/
inductive Exit where
  | done
  | err
  | readErr
deriving DecidableEq

def rdData (reg : BitVec 32) : BitVec 8 := ((reg &&& 0xFF00#32) >>> 8).setWidth 8

def readLoop : Nat → Nat → σ → Exit × List (BitVec 8) × σ
  | 0, _, s => (.done, [], s)
  | n + 1, i, s =>
    let acked := hdmiDdcCheckStatus c statusWrAvail true (c.outl s 0x40000#32)
    if acked.1 = false then (.err, [], acked.2)
    else
      let avail := hdmiDdcCheckStatus c statusSwRead false acked.2
      if avail.1 = false then (if i = 0 then .err else .readErr, [], avail.2)
      else
        let read := c.inl avail.2
        let rest := readLoop n (i + 1) (c.outl read.2 0x2000000#32)
        (rest.1, rdData read.1 :: rest.2.1, rest.2.2)

/-- The error counters of the DDC. -/
structure Vpp where
  dbgHdmiDdcCtrlErr : Nat
  dbgHdmiDdcReadErr : Nat
deriving DecidableEq

structure Attempt (σ : Type) where
  exit : Exit
  stored : List (BitVec 8)
  state : σ

/-- The return value, which only looks at `err_cnt`. -/
def Attempt.ret (a : Attempt σ) : Nat := if a.exit = .err then 1 else 0

def Attempt.vpp (a : Attempt σ) (vpp : Vpp) : Vpp :=
  match a.exit with
  | .done => vpp
  | .err => { vpp with dbgHdmiDdcCtrlErr := vpp.dbgHdmiDdcCtrlErr + 1 }
  | .readErr => { vpp with dbgHdmiDdcReadErr := vpp.dbgHdmiDdcReadErr + 1 }

def startRead (index : Int) (s : σ) : Bool × σ :=
  let s := c.setFreq s
  if index ≥ 256 then
    let enhanced := requests c (enhancedRequests c) s
    if enhanced.1 then requests c (startRequests c (index - 256)) enhanced.2 else enhanced
  else requests c (startRequests c index) s

/-- The counter of the loop is unsigned, so `length` is taken as unsigned as well. -/
def hdmiDdcReadFunc (index : Int) (length : Nat) (s : σ) : Attempt σ :=
  let started := startRead c index s
  if started.1 = false then ⟨.err, [], started.2⟩
  else
    let read := readLoop c length 0 started.2
    if read.1 ≠ .done then ⟨read.1, read.2.1, read.2.2⟩
    else
      let stopped := requests c [stopRequest c] read.2.2
      ⟨if stopped.1 then .done else .err, read.2.1, stopped.2⟩

def store (buf : Nat → BitVec 8) (bytes : List (BitVec 8)) : Nat → BitVec 8 :=
  fun i => bytes.getD i (buf i)

structure Read (σ : Type) where
  ret : Nat
  buf : Nat → BitVec 8
  vpp : Vpp
  state : σ

def retryLoop (index : Int) (length : Nat) : Nat → (Nat → BitVec 8) → Vpp → σ → Read σ
  | 0, buf, vpp, s => ⟨1, buf, vpp, s⟩
  | retry + 1, buf, vpp, s =>
    let a := hdmiDdcReadFunc c index length s
    if a.ret = 0 then ⟨0, store buf a.stored, a.vpp vpp, a.state⟩
    else retryLoop index length retry (store buf a.stored) (a.vpp vpp) (c.reset a.state)

/-- The address is only printed: with `HDMI_DDC_OUT` the requests name the device 0xA0. -/
def hdmiDdcRead (index : Int) (buf : Nat → BitVec 8) (length : Nat) (vpp : Vpp) (s : σ) : Read σ :=
  retryLoop c index length 3 buf vpp s

end

end Wm8850.Hdmi
