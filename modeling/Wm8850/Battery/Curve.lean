import Wm8850.Lib.Word

/-! # The discharge curve of the battery

`adc2cap` of `wmt_batterySH.c` finds the capacity for an ADC value between the eleven points of
`discharge_vp`. -/

namespace Wm8850.Battery

open Lib

/-- The capacity between the points `i` and `i + 1`. The `int` arithmetic of the source wraps. -/
def between (vp : Nat → Int) (adc : Int) (i : Nat) : Int :=
  wrapInt ((wrapInt ((adc - vp i) * 10)).tdiv (wrapInt (vp (i + 1) - vp i)) + i * 10)

/-- `capacity` has no value before the loop. -/
def adc2cap (vp : Nat → Int) (adc : Int) : Option Int :=
  if vp 10 ≤ adc then some 100
  else if adc ≤ vp 0 then some 0
  else [9, 8, 7, 6, 5, 4, 3, 2, 1, 0].foldl (fun capacity i =>
    if adc ≤ vp (i + 1) ∧ vp i < adc then some (between vp adc i) else capacity) none

end Wm8850.Battery
