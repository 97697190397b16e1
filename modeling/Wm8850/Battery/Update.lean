import Wm8850.Battery.Curve

/-! # The battery of the tablet

`wmt_bat_update` of `wmt_batterySH.c` polls the pins of the adapter, the charger and the battery,
and sets the status and the capacity that the driver reports. `wmt_read_capacity` smooths the ADC,
with variables that stay from call to call. Left out are `health`, which never changes, and the pins
that are written. -/

namespace Wm8850.Battery

open Lib

/-- A point of a calibration table: the voltage without and with the full load of a module. -/
structure ModuleEffect where
  voltageEffnorm : Int
  voltageEffmax : Int

/-- `module_calibration`, with a table of ten points for each load. -/
structure ModuleCalibration where
  brightnessEf : List ModuleEffect
  wifiEf : List ModuleEffect
  adapterEf : List ModuleEffect

/-- The loads whose usage user space reports, in the order of the enumeration. -/
inductive BatteryModule where
  | volume
  | brightness
  | wifi
  | video
  | usbdevice
  | hdmi

/-- The settings: what `wmt_batt_initPara` reads, `debug_mode`, and bit 0 of `active` of each
pin. -/
structure Config where
  debugMode : Bool
  battOperation : Bool
  adcUsed : Bool
  /-- `judge_charge_full` is 1 -/
  judgeChargeFull : Bool
  chargeByUsb : Bool
  chargeMax : Nat
  dischargeVp : Nat → Int
  calibration : ModuleCalibration
  isForOldVersion : Bool
  dcinActive : Bool
  batstateActive : Bool
  batlowActive : Bool

/-- What one poll reads. -/
structure Sample where
  dcin : Bool
  usb : Bool
  batstate : Bool
  batlow : Bool
  /-- `batlow` in `wmt_read_capacity`, before and after the ADC value is known -/
  batlowEarly : Bool
  batlowLate : Bool
  /-- the ADC in the test against `charge_max` -/
  adcFull : Nat
  adc : Nat
  /-- `module_usage`, with the 72 that stands for a brightness nobody has set -/
  usage : BatteryModule → Int

/-- `POWER_SUPPLY_STATUS_*`. -/
inductive Status where
  | unknown
  | charging
  | discharging
  | full
deriving Repr, DecidableEq

/-- What is reported of the battery. -/
structure Session where
  low : Bool
  dcin : Bool
  status : Status
  isBatterypower : Bool
  capacity : Int
deriving Repr, DecidableEq

/-- The static variables of `wmt_read_capacity`. `none` is the `-1` of `oldLowestAdc`. -/
structure History where
  index : Int
  oldCapacity : Int
  adcVal : List Nat
  judgeVoltageHopNextTime : Nat
  oldLowestAdc : Option Nat
  oldLowestCapacity : Int
deriving Repr, DecidableEq

/-- The variables that stay between two updates. -/
structure State where
  sesn : Session
  old : Session
  suspResu : Bool
  susUpdateCnt : Nat
  hist : History
deriving Repr, DecidableEq

/-- The variables after the module is loaded. -/
def start : State :=
  let sesn : Session :=
    { low := false, dcin := true, status := .unknown, isBatterypower := true, capacity := 100 }
  { sesn := sesn, old := sesn, suspResu := false, susUpdateCnt := 0
    hist :=
      { index := 0, oldCapacity := -1, adcVal := [0, 0, 0, 0, 0], judgeVoltageHopNextTime := 0
        oldLowestAdc := none, oldLowestCapacity := -1 } }

/-! ### The pins -/

def wmtReadDcinDT (cfg : Config) (x : Sample) : Bool :=
  let status := if cfg.dcinActive then x.dcin else !x.dcin
  -- a PC at the USB port does not count
  status && !(cfg.chargeByUsb && x.usb)

def wmtReadBatlowDT (cfg : Config) (pin : Bool) : Bool :=
  !(if cfg.batlowActive then pin else !pin)

def wmtReadStatus (cfg : Config) (sesn : Session) (x : Sample) : Status :=
  if sesn.dcin then
    if (if cfg.batstateActive then !x.batstate else x.batstate) then .full else .charging
  else .discharging

/-! ### The capacity -/

/-- `get_best_value` of five values: the mean without the largest and the smallest. -/
def getBestValue (l : List Nat) : Nat :=
  wsub (wsub (l.sum % wordSize) (l.foldl max 0)) (l.foldl min (l.headD 0)) / 3

/-- What the load `e` takes from the voltage at this usage, in per cent. -/
def ModuleEffect.at (e : ModuleEffect) (usage : Int) : Int :=
  (wrapInt (wrapInt (e.voltageEffmax - e.voltageEffnorm) * usage)).tdiv 100

/-- The effect at the first point of the table that is not below the ADC value, or at the last
one. -/
def getEffect (adc usage : Int) (effects : List ModuleEffect) : Int :=
  match effects.find? fun e => adc ≤ e.voltageEffmax with
  | some e => e.at usage
  | none => (effects.getLast?.map (·.at usage)).getD 0

/-- One round of the loop of `adc_repair` over the modules. -/
def addModule (cfg : Config) (usage : BatteryModule → Int) (adc adcAdd : Int) : BatteryModule → Int
  | .volume => adcAdd
  | .brightness =>
    wrapInt (adcAdd - getEffect adc (min (max (100 - usage .brightness) 0) 100)
      cfg.calibration.brightnessEf)
  | .wifi =>
    if cfg.isForOldVersion then
      wrapInt (adcAdd - getEffect adc (usage .wifi) cfg.calibration.wifiEf)
    else adcAdd
  | .video => wrapInt (adcAdd + (usage .video * 45).tdiv 100)
  | .usbdevice =>
    -- neither the USB nor the SDIO wifi is on
    if !cfg.isForOldVersion ∧ usage .usbdevice < 20 ∧ usage .wifi ≠ 100 then
      wrapInt (adcAdd - getEffect adc 100 cfg.calibration.wifiEf)
    else adcAdd
  | .hdmi => wrapInt (adcAdd + if 0 < usage .hdmi then 15 else 0)

/-- The ADC value that the battery would have without its loads. -/
def adcRepair (cfg : Config) (dcin : Bool) (usage : BatteryModule → Int) (adc : Int) : Int :=
  if dcin then wrapInt (adc - getEffect adc 100 cfg.calibration.adapterEf)
  else [.volume, .brightness, .wifi, .video, .usbdevice, .hdmi].foldl (addModule cfg usage adc) adc

/-- The capacity in steps of 5, as the driver reports it. -/
def convertValue (cap : Int) : Int :=
  let cap := if cap < 0 then 0 else cap
  let cap := if cap > 0 then (cap / 5 + 1) * 5 else cap
  if cap > 100 then 100 else cap

/-- How a call ends: without an evaluation, at the capacity 0, or with a reading that is not taken
or taken. -/
inductive Verdict where
  | kept
  | shutdown
  | rejected
  | accepted

/-- `capacity` before it is compared with the old one, for an ADC value and the battery low
signal. -/
def evaluate (cfg : Config) (dcin : Bool) (x : Sample) (low : Bool) (adc : Nat) : Int :=
  let capacity := (adc2cap cfg.dischargeVp (adcRepair cfg dcin x.usage adc)).getD 0
  if low ∧ capacity ≤ 30 then if capacity > 25 then capacity - (30 - capacity) else capacity - 5
  else capacity

/-- The new reading goes into the ring of five, which the first one fills. -/
def History.sample (h : History) (adc : Nat) : History :=
  { h with
    index := wrapInt (h.index + 1)
    adcVal :=
      if h.index = 0 ∧ h.oldCapacity = -1 then List.replicate 5 adc
      else if 0 ≤ h.index.tmod 5 then h.adcVal.set (h.index.tmod 5).toNat adc
      -- after `2 ^ 31` calls the index is negative, and the write is in front of the ring
      else h.adcVal }

/-- A value that is less than 5 above the last one counts as the last one. -/
def History.smoothAdc (h : History) : Nat :=
  let best := getBestValue h.adcVal
  let oldLowestAdc := h.oldLowestAdc.getD best
  if 0 < wsub best oldLowestAdc ∧ wsub best oldLowestAdc < 5 then oldLowestAdc else best

/-- A capacity that is less than 8 above the last one counts as the last one. -/
def History.smoothCapacity (h : History) (capacity : Int) : Int :=
  let lowest := if h.oldLowestCapacity = -1 then capacity else h.oldLowestCapacity
  if 0 < capacity - lowest ∧ capacity - lowest < 8 then lowest else capacity

/-- A capacity that is more than 3 away from the old one is taken after `JUDGE_HOP_VOLTAGE_TIMES`
rejections. -/
def History.judge (h : History) (capacity : Int) : Verdict × History × Int :=
  let h := { h with oldLowestCapacity := capacity }
  let hops := min h.judgeVoltageHopNextTime 4
  if hops ≠ 4 ∧ h.oldCapacity ≠ -1 ∧
    (capacity - h.oldCapacity > 3 ∨ h.oldCapacity - capacity > 3) then
    (.rejected, { h with judgeVoltageHopNextTime := hops + 1 }, convertValue h.oldCapacity)
  else (.accepted, { h with judgeVoltageHopNextTime := 0, oldCapacity := capacity },
    convertValue capacity)

/-- `wmt_read_capacity`, with how the call ended. -/
def readCapacity (cfg : Config) (dcin : Bool) (h : History) (x : Sample) :
    Verdict × History × Int :=
  let h' := h.sample x.adc
  if h.index.tmod 5 = 0 ∨ h.oldCapacity = -1 ∨
      h.oldCapacity < 15 ∧ wmtReadBatlowDT cfg x.batlowEarly then
    let adc := h'.smoothAdc
    let h' := { h' with oldLowestAdc := some adc }
    let low := wmtReadBatlowDT cfg x.batlowLate
    let capacity := evaluate cfg dcin x low adc
    if low ∧ capacity < 5 then (.shutdown, { h' with oldCapacity := 0 }, 0)
    else h'.judge (h'.smoothCapacity capacity)
  else (.kept, h', convertValue h.oldCapacity)

/-- The new static variables and the value that `wmt_read_capacity` returns. -/
def wmtReadCapacity (cfg : Config) (dcin : Bool) (h : History) (x : Sample) : History × Int :=
  (readCapacity cfg dcin h x).2

/-! ### The update -/

/-- The reads at the start of `wmt_bat_update`. -/
def Session.poll (cfg : Config) (sesn : Session) (x : Sample) : Session :=
  let sesn := { sesn with dcin := wmtReadDcinDT cfg x }
  { sesn with
    status := wmtReadStatus cfg sesn x, isBatterypower := !sesn.dcin
    low := wmtReadBatlowDT cfg x.batlow }

/-- The branch of `wmt_bat_update` for an external adapter, with the ADC in use. -/
def chargeUpdate (cfg : Config) (s : State) (x : Sample) : State :=
  if s.sesn.status ≠ .charging then { s with sesn := { s.sesn with capacity := 100 } }
  else if cfg.judgeChargeFull ∧ cfg.chargeMax ≤ x.adcFull then
    -- `capacity = 100` is written over by `current_percent`, which is still 0
    { s with sesn := { s.sesn with status := .full, capacity := 0 } }
  else
    let (hist, percent) := wmtReadCapacity cfg s.sesn.dcin s.hist x
    { s with
      sesn := { s.sesn with capacity := percent }, suspResu := false, susUpdateCnt := 0
      hist := hist }

/-- The branch of `wmt_bat_update` for battery power, with the ADC in use. -/
def dischargeUpdate (cfg : Config) (s : State) (x : Sample) : State :=
  let (hist, percent) := wmtReadCapacity cfg s.sesn.dcin s.hist x
  let s := { s with hist := hist }
  if s.suspResu ∧ s.susUpdateCnt < 2 then
    { s with
      sesn := { s.sesn with capacity := s.old.capacity }, susUpdateCnt := s.susUpdateCnt + 1 }
  else
    { s with
      sesn := { s.sesn with capacity := percent }, suspResu := false
      susUpdateCnt := if s.suspResu then 0 else s.susUpdateCnt }

def operationUpdate (cfg : Config) (s : State) (x : Sample) : State :=
  if s.sesn.low ∧ !s.sesn.dcin then
    let (hist, percent) := wmtReadCapacity cfg s.sesn.dcin s.hist x
    { s with sesn := { s.sesn with capacity := percent }, hist := hist }
  else if !cfg.adcUsed then
    { s with
      sesn := { s.sesn with
        capacity := if s.sesn.dcin ∧ s.sesn.status ≠ .discharging then 50 else 100 } }
  else if s.sesn.dcin then chargeUpdate cfg s x
  else dischargeUpdate cfg s x

/-- The fixed capacity of the debug mode. -/
def debugCapacity (sesn : Session) : Int :=
  if !sesn.dcin ∧ sesn.low then 10 else if sesn.status = .full then 100 else 90

def wmtBatUpdate (cfg : Config) (s : State) (x : Sample) : State :=
  let t :=
    if cfg.debugMode then
      let sesn := s.sesn.poll cfg x
      { s with sesn := { sesn with capacity := debugCapacity sesn } }
    else if cfg.battOperation then operationUpdate cfg { s with sesn := s.sesn.poll cfg x } x
    else
      { s with
        sesn := { s.sesn with isBatterypower := !s.sesn.dcin, status := .full, capacity := 100 } }
  { t with old := t.sesn }

/-- What happens to the driver: the poll, with what `wmt_battery_work` read just before, and the
suspend. -/
inductive Event where
  | work (early x : Sample)
  | suspend

/-- The state after the work or a suspend. -/
def Event.exec (cfg : Config) (s : State) : Event → State
  | .work early x =>
    wmtBatUpdate cfg { s with sesn := { s.sesn with dcin := wmtReadDcinDT cfg early } } x
  | .suspend => { s with suspResu := true, susUpdateCnt := 0 }

end Wm8850.Battery
