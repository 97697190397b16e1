import Wm8850.Lib.Search
import Wm8850.Lib.Word

/-! # The clock of a device

A device gets its clock from a PLL, which makes `24 MHz * 2 (DF + 1) / ((DR + 1) 2^DQ)` of the
quartz, through a divisor. `auto_pll_divisor` reads the frequency of a device or looks for the
closest setting.

The registers keep what is written; the wait after a write is left out. `do_div` by 0 gives 0, as
`div64.S` does. -/

namespace Wm8850.Clk

open Lib Function

/-- `enum dev_id`. -/
inductive Dev where
  | sdmmc0 | sdmmc1 | sdmmc2 | sdmmc3 | ethmac | ethphy | rtc | i2c0 | i2c1 | i2c2 | gpio | i2c3
  | keypad | ebm | pcm | pwm | scc | sys | amp | mali | perm | mbox | ddrmc | arf | arfp | dma
  | pdma | vdma | uhdc | ahbb | nand | nor | spi0 | spi1 | sf | uart0 | uart1 | uart2 | uart3
  | uart4 | uart5 | na0 | na0ref | jdec | msvd | vp8dec | sae | hdce | h264 | cir | na12 | vpu | vpp
  | vid | vdu | scl444u | hdmii2c | hdmi | govw | govrhd | ge | disp | dvo | hdmilvds | sdtv | i2s
  | arm | ahb | apb | l2c | l2caxi | l2cpaxi
deriving DecidableEq

def Dev.id : Dev → Nat
  | .sdmmc0 => 0 | .sdmmc1 => 1 | .sdmmc2 => 2 | .sdmmc3 => 3 | .ethmac => 4 | .ethphy => 6
  | .rtc => 7 | .i2c0 => 8 | .i2c1 => 9 | .i2c2 => 10 | .gpio => 11 | .i2c3 => 12 | .keypad => 14
  | .ebm => 15 | .pcm => 16 | .pwm => 17 | .scc => 21 | .sys => 22 | .amp => 24 | .mali => 26
  | .perm => 30 | .mbox => 31 | .ddrmc => 32 | .arf => 35 | .arfp => 36 | .dma => 37 | .pdma => 38
  | .vdma => 39 | .uhdc => 41 | .ahbb => 45 | .nand => 48 | .nor => 49 | .spi0 => 51 | .spi1 => 52
  | .sf => 55 | .uart0 => 56 | .uart1 => 57 | .uart2 => 58 | .uart3 => 59 | .uart4 => 60
  | .uart5 => 61 | .na0 => 64 | .na0ref => 65 | .jdec => 67 | .msvd => 68 | .vp8dec => 69
  | .sae => 70 | .hdce => 71 | .h264 => 72 | .cir => 79 | .na12 => 80 | .vpu => 81 | .vpp => 82
  | .vid => 83 | .vdu => 84 | .scl444u => 85 | .hdmii2c => 86 | .hdmi => 87 | .govw => 88
  | .govrhd => 89 | .ge => 90 | .disp => 91 | .dvo => 93 | .hdmilvds => 94 | .sdtv => 95
  | .i2s => 98 | .arm => 99 | .ahb => 100 | .apb => 101 | .l2c => 102 | .l2caxi => 103
  | .l2cpaxi => 104

/-- What `calc_pll_num` says of a device: -1, -2 with an offset, or the PLL and the offset of the
divisor. -/
inductive PllNum where
  | notFound
  | noDivisor (offset : Nat)
  | pll (no offset : Nat)
deriving DecidableEq

/-- Where the divisor of a device is, and which PLL it divides. -/
def calcPllNum : Dev → PllNum
  | .uart0 | .uart1 | .uart2 | .uart3 | .uart4 | .uart5 | .cir | .vp8dec | .scc | .jdec | .msvd
  | .amp | .vpu | .mbox | .ge | .govrhd | .keypad | .rtc | .gpio | .arf | .arfp | .dma | .uhdc
  | .perm | .pdma | .vdma | .hdmi | .scl444u | .govw | .vid | .sae =>
    .noDivisor 0
  | .i2c0 => .pll 1 0x3A0
  | .i2c1 => .pll 1 0x3A4
  | .i2c2 => .pll 1 0x3A8
  | .i2c3 => .pll 1 0x3AC
  | .pwm => .pll 1 0x350
  | .spi0 => .pll 1 0x340
  | .spi1 => .pll 1 0x344
  | .hdmilvds | .sdtv => .pll 2 0x36C
  | .dvo => .pll 6 0x370
  | .ebm => .pll 3 0x38C
  | .mali => .pll 1 0x388
  | .ddrmc => .pll 3 0x310
  | .na0 => .pll 3 0x358
  | .na12 | .vpp => .pll 1 0x35C
  | .l2c => .pll 0 0x30C
  | .l2caxi => .pll 0 0x3B0
  | .l2cpaxi => .pll 0 0x3C0
  | .vdu => .pll 1 0x368
  | .nand => .pll 1 0x318
  | .nor => .pll 1 0x31C
  | .sdmmc0 => .pll 1 0x330
  | .sdmmc1 => .pll 1 0x334
  | .sdmmc2 => .pll 1 0x338
  | .sdmmc3 => .pll 1 0x33C
  | .ethmac => .pll 1 0x394
  | .sf => .pll 1 0x314
  | .pcm => .pll 1 0x354
  | .i2s => .pll 4 0x374
  | .arm => .pll 0 0x300
  | .ahb => .pll 1 0x304
  | .apb => .pll 1 0x320
  | .ethphy => .noDivisor 25
  | _ => .notFound

/-- Devices with the factors 2 and 64 behind the divisor. -/
def Dev.isSdmmc (dev : Dev) : Bool :=
  dev = .sdmmc0 || dev = .sdmmc1 || dev = .sdmmc2 || dev = .sdmmc3

/-! ### Registers -/

/-- The registers of the power management controller, and how often a clock is enabled. -/
structure Pmc where
  reg : Nat → BitVec 32
  devEnCount : Nat → Int

def pmcPll (no : Nat) : Nat := 0x200 + 4 * no

def pmcClk (dev : Dev) : Nat := 0x250 + 4 * (dev.id / 32)

def clkBit (dev : Dev) : BitVec 32 := 1#32 <<< (dev.id % 32)

namespace Pmc
variable (p : Pmc)

def write (offset : Nat) (val : BitVec 32) : Pmc := { p with reg := update p.reg offset val }

/-- The byte of the divisor, with the factor 64 in bit 5. -/
def divByte (offset : Nat) : Nat := (p.reg offset).toNat % 256

def selectTv (dev : Dev) (offset : Nat) : Pmc :=
  p.write offset ((p.reg offset &&& ~~~0xFF0000#32) ||| if dev = .sdtv then 0x10000#32 else 0#32)

/-- The bit of the clock is set. -/
def clkEnabled (dev : Dev) : Bool := p.reg (pmcClk dev) &&& clkBit dev ≠ 0#32

def disableDevClk (dev : Dev) : Int × Pmc :=
  let enCount := p.devEnCount dev.id
  if enCount ≤ 1 then
    (0, { p.write (pmcClk dev) (p.reg (pmcClk dev) &&& ~~~clkBit dev) with
      devEnCount := update p.devEnCount dev.id 0 })
  else (enCount - 1, { p with devEnCount := update p.devEnCount dev.id (enCount - 1) })

def enableDevClk (dev : Dev) : Int × Pmc :=
  let enCount := p.devEnCount dev.id
  if enCount ≤ 0 ∨ ¬p.clkEnabled dev then
    (1, { p.write (pmcClk dev) (p.reg (pmcClk dev) ||| clkBit dev) with
      devEnCount := update p.devEnCount dev.id 1 })
  else (enCount + 1, { p with devEnCount := update p.devEnCount dev.id (enCount + 1) })

end Pmc

def maxDf : Nat := 127

def maxDr : Nat := 1

def maxDq : Nat := 3

def getDivf (d : Nat) : Nat := (((d >>> 16) &&& maxDf) + 1) * 2

def getDivr (d : Nat) : Nat := ((d >>> 8) &&& maxDr) + 1

def getDivq (d : Nat) : Nat := 1 <<< (d &&& maxDq)

/-! ### Reading -/

def divisorOf (dev : Dev) (byte : Nat) : Nat :=
  if dev.isSdmmc then (byte &&& 0x1F) * (if byte &&& 32 ≠ 0 then 64 else 1) * 2 else byte &&& 0x1F

/-- The frequency that the registers are set to. -/
def getFreq (dev : Dev) (p : Pmc) : Int × Pmc :=
  match calcPllNum dev with
  | .notFound => (-1, p)
  | .noDivisor offset => (offset * 1000000, p)
  | .pll no offset =>
    let p := p.selectTv dev offset
    let tmp := (p.reg (pmcPll no)).toNat
    (wrapInt ↑(24 * getDivf tmp * 1000000 /
      (getDivr tmp * getDivq tmp * divisorOf dev (p.divByte offset))), p)

/-! ### Setting the divisor -/

def toHz (freq : Int) (base : Nat) : Nat := (freq * base % 2 ^ 64).toNat

/-- What is written to the register for a divisor. The field is 0 for 32. -/
def divWord (dev : Dev) (j : Bool) (div : Nat) : BitVec 32 :=
  if dev = .na0 then 0x200#32 ||| BitVec.ofNat 32 (if div = 32 then 0 else div)
  else BitVec.ofNat 32 ((if dev = .sdtv then 0x10000 else 0) + (if j then 32 else 0) + if div =
    32 then 0 else div)

/-- The first divisor that is not above the target, with the PLL as it is. -/
def setDivisor (dev : Dev) (unit freq : Int) (p : Pmc) : Int × Pmc :=
  match calcPllNum dev with
  | .pll no offset =>
    let p := p.selectTv dev offset
    let tmp := (p.reg (pmcPll no)).toNat
    let pll := 24 * getDivf tmp * 1000000
    let divLlu := getDivr tmp * getDivq tmp
    if ¬p.clkEnabled dev then (-1, p)
    else
      let target := toHz freq (if unit = 1 then 1000 else if unit = 2 then 1000000 else 1)
      let j := dev.isSdmmc && decide (target ≤ pll / divLlu / 64)
      let factor := if dev.isSdmmc then (if j then 64 else 1) * 2 else 1
      let found := (List.range' 1 32).find? fun i =>
        ¬(1 < i ∧ i % 2 = 1 ∧ no = 2) ∧ pll / (divLlu * (i * factor)) ≤ target
      match found with
      | some div => (wrapInt ↑(pll / (divLlu * (div * factor))), p.write offset (divWord dev j div))
      | none => (-1, p)
  | _ => (-1, p)

/-! ### Searching for the settings of the PLL -/

/-- The values for the PLL and the divisor behind it. -/
structure Setting where
  df : Nat
  dr : Nat
  dq : Nat
  vd : Nat
deriving DecidableEq

/-- The frequency of a setting in Hz. -/
def Setting.freq (s : Setting) : Nat :=
  24 * 2 * (s.df + 1) * 1000000 / (s.vd * (s.dr + 1) * 2 ^ s.dq)

structure Best where
  setting : Setting
  minMinor : Nat
deriving DecidableEq

def Best.start : Best := ⟨⟨1, 1, 1, 1⟩, 0xFF000000⟩

def Best.improve (b : Best) (s : Setting) (minor : Nat) :
    Best := if minor < b.minMinor then ⟨s, minor⟩ else b

/-- With `nearest` the first setting above the target counts as well. -/
def dfLoop (target : Nat) (nearest : Bool) (dr dq vd : Nat) : Nat → Nat → Best → Bool × Best
  | 0, _, b => (false, b)
  | n + 1, df, b =>
    let s : Setting := ⟨df, dr, dq, vd⟩
    if 24 / (dr + 1) < 10 then (false, b)
    else if 2 * (df + 1) / (dr + 1) < 800 / 24 then dfLoop target nearest dr dq vd n (df + 1) b
    else if 1600 / 24 < 2 * (df + 1) / (dr + 1) then (false, b)
    else if s.freq = target then (true, { b with setting := s })
    else if s.freq < target then
      dfLoop target nearest dr dq vd n (df + 1) (b.improve s (target - s.freq))
    else (false, if nearest then b.improve s (s.freq - target) else b)

def search (target : Nat) (nearest : Bool) (vds : List Nat) : Best :=
  (scan (fun dr => scan (fun dq =>
    scan (fun vd => dfLoop target nearest dr dq vd (maxDf + 1) 0) vds) [3, 2, 1, 0]) [1, 0]
    Best.start).2

def pllWord (s : Setting) : BitVec 32 := BitVec.ofNat 32 (s.df <<< 16 + s.dr <<< 8 + s.dq)

/-- A unit is 0, 1 or 2, for Hz, kHz and MHz. -/
def unitBase (unit : Int) : Option Nat :=
  if unit = 1 then some 1000
  else if unit = 2 then some 1000000
  else if unit ≠ 0 then none
  else some 1

/-- The search with the divisor that is set. -/
def setPllSpeed (dev : Dev) (unit freq : Int) (p : Pmc) : Int × Pmc :=
  match calcPllNum dev with
  | .pll no offset =>
    let p := p.selectTv dev offset
    let divisor := p.divByte offset
    match unitBase unit with
    | none => (-1, p)
    | some base =>
      let s := { (search (toHz freq base) (no = 2) [divisor]).setting with vd := divisor }
      (wrapInt ↑s.freq, p.write (pmcPll no) (pllWord s))
  | _ => (-1, p)

def divisors (no : Nat) : List Nat :=
  ((List.range 32).map fun k => 32 - k).filter fun vd => ¬(1 < vd ∧ vd % 2 = 1 ∧ (no = 2 ∨ no = 6))

/-- The search over all settings. The larger divisor is written before the PLL. -/
def setPllDivisor (dev : Dev) (unit freq : Int) (p : Pmc) : Int × Pmc :=
  match calcPllNum dev with
  | .pll no offset =>
    let p := p.selectTv dev offset
    let oldDivisor := p.divByte offset
    match unitBase unit with
    | none => (-1, p)
    | some base =>
      let s := (search (toHz freq base) (no = 2 ∨ no = 6) (divisors no)).setting
      if ¬p.clkEnabled dev then (-1, p)
      else
        let p := if oldDivisor < s.vd then p.write offset (divWord dev false s.vd) else p
        let p := p.write (pmcPll no) (pllWord s)
        let p := if s.vd < oldDivisor then p.write offset (divWord dev false s.vd) else p
        (wrapInt ↑s.freq, p)
  | _ => (-1, p)

/-- The commands of `auto_pll_divisor`. -/
inductive ClkCmd where
  | clkDisable | getFreq | clkEnable | setDiv | setPll | setPlldiv
deriving DecidableEq

/-- The result of a command, and the registers after it. -/
def autoPllDivisor (dev : Dev) (cmd : ClkCmd) (unit freq : Int) (p : Pmc) : Int × Pmc :=
  match cmd with
  | .clkDisable => p.disableDevClk dev
  | .clkEnable => p.enableDevClk dev
  | .getFreq => getFreq dev p
  | .setDiv => setDivisor dev unit freq p
  | .setPll => setPllSpeed dev unit freq p
  | .setPlldiv => setPllDivisor dev unit freq p

end Wm8850.Clk
