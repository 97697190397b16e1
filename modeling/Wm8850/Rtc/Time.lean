import Mathlib.Data.Nat.Bitwise

/-! # The clock of the RTC

`wmt_rtc_set_time` packs a time into the registers `RTTS` and `RTDS`, digit by digit, and
`wmt_rtc_read_time` unpacks `RTCT` and `RTCD`. Messages and the test of a `NULL` pointer are left
out. -/

namespace Wm8850.Rtc

/-- `struct rtc_time`, as far as it is used. -/
structure RtcTime where
  sec : Int
  min : Int
  hour : Int
  wday : Int
  mday : Int
  mon : Int
  year : Int
  deriving DecidableEq

/-- The registers of `struct rtc_regs_t` that are used. -/
structure Regs where
  rtts : Nat
  rtds : Nat
  rtct : Nat
  rtcd : Nat
  rtws : Nat
  deriving DecidableEq

def bcd2bin (x : Nat) : Nat := (x &&& 0x0f) + (x >>> 4) * 10
def bin2bcd (x : Nat) : Nat := ((x / 10) <<< 4) + x % 10

/-- The macros `RTTS_*` and `RTDS_*`, by the place and the mask of the field. -/
def setField (shift mask x : Nat) : Nat := (bin2bcd x <<< shift) &&& mask

/-- The macros `RTCT_*` and `RTCD_*`. -/
def getField (shift mask x : Nat) : Nat := bcd2bin ((x &&& mask) >>> shift)

def rttsSec := setField 0 0x7f
def rttsMin := setField 7 0x3f80
def rttsHour := setField 14 0xfc000
def rttsDay := setField 20 0x700000
def rtdsMday := setField 0 0x3f
def rtdsMon := setField 6 0x7c0
def rtdsYear := setField 11 0x7f800
def rtdsCent := setField 19 0x80000

def rtctSec := getField 0 0x7f
def rtctMin := getField 7 0x3f80
def rtctHour := getField 14 0xfc000
def rtctDay := getField 20 0x700000
def rtcdMday := getField 0 0x3f
def rtcdMon := getField 6 0x7c0
def rtcdYear := getField 11 0x7f800
def rtcdCent := getField 19 0x80000

def rtcInvalid : Nat := 0x80000000
def einval : Int := -22
def ebusy : Int := -16

def wmtSetTime (r : Regs) (value : Nat) : Int × Regs :=
  if r.rtws &&& 1 = 0 then (0, { r with rtts := value &&& 0x7fffff }) else (ebusy, r)

def wmtSetDate (r : Regs) (value : Nat) : Int × Regs :=
  if r.rtws &&& 2 = 0 then (0, { r with rtds := value &&& 0xfffff }) else (ebusy, r)

/-- The range checks of `wmt_rtc_set_time`. The year has no upper bound, and the day may be 0. -/
def RtcTime.Accepted (tm : RtcTime) : Prop :=
  (0 ≤ tm.sec ∧ tm.sec ≤ 59) ∧ (0 ≤ tm.min ∧ tm.min ≤ 59) ∧ (0 ≤ tm.hour ∧ tm.hour ≤ 23) ∧
    (0 ≤ tm.wday ∧ tm.wday ≤ 6) ∧ (0 ≤ tm.mday ∧ tm.mday ≤ 31) ∧ (0 ≤ tm.mon ∧ tm.mon ≤ 11) ∧
      100 ≤ tm.year

instance (tm : RtcTime) : Decidable tm.Accepted := by unfold RtcTime.Accepted; infer_instance

/-- The value for `RTTS`. -/
def timeValue (tm : RtcTime) : Nat :=
  rttsSec tm.sec.toNat ||| rttsMin tm.min.toNat ||| rttsHour tm.hour.toNat ||| rttsDay tm.wday.toNat

/-- The value for `RTDS`. -/
def dateValue (tm : RtcTime) : Nat :=
  rtdsMday tm.mday.toNat ||| rtdsMon (tm.mon.toNat + 1) ||| rtdsYear (tm.year.toNat % 100) |||
    rtdsCent (tm.year.toNat / 100 - 1)

/-- `wmt_rtc_set_time`. -/
def wmtRtcSetTime (r : Regs) (tm : RtcTime) : Int × Regs :=
  if tm.Accepted then
    let (ret, r₁) := wmtSetTime r (timeValue tm)
    if ret ≠ 0 then (ret, r₁) else wmtSetDate r₁ (dateValue tm)
  else (einval, r)

/-- `wmt_rtc_read_time`. -/
def wmtRtcReadTime (r : Regs) : Except Int RtcTime :=
  if r.rtct &&& rtcInvalid ≠ 0 ∨ r.rtcd &&& rtcInvalid ≠ 0 then .error einval
  else
    .ok { sec := rtctSec r.rtct, min := rtctMin r.rtct, hour := rtctHour r.rtct,
          wday := rtctDay r.rtct, mday := rtcdMday r.rtcd, mon := rtcdMon r.rtcd - 1,
          year := rtcdYear r.rtcd + (rtcdCent r.rtcd * 100 + 100) }

end Wm8850.Rtc
