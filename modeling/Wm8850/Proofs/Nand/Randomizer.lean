import Mathlib.Data.List.GetD
import Wm8850.Nand.Randomizer

/-! # A scrambled page is read back

The write mixes six words of out-of-band bytes at once, the read one word for the mark and five for
the rest; the key of a byte depends on its column only (`getD_rdmzKeys`). In the table of frames the
keys depend on the call only. `init_randomizer` can refuse a chip, the probe ignores it, and then
the out-of-band bytes are lost.
-/

namespace Wm8850.Nand

open Lib List Nat

def Accepted (pgsize spsize pgPerBk : Nat) : Prop :=
  (0 < pgsize ∧ pgsize ≤ maxPageMainSize) ∧ (0 < spsize ∧ spsize ≤ maxPageSpareSize) ∧
    (0 < pgPerBk ∧ pgPerBk ≤ maxPagesPerBlock) ∧ (pgsize + spsize) % eccFrames = 0 ∧
    pgPerBk &&& (pgPerBk - 1) = 0

instance (pgsize spsize pgPerBk : Nat) : Decidable (Accepted pgsize spsize pgPerBk) :=
  inferInstanceAs (Decidable (_ ∧ _))

/-! ### The ring of words -/

variable {k size p : Nat}

section
variable (t : Tables) {m : Mtd} (hr : m.isRandomizer = true)
  (hw : m.writesize = 4096 ∨ 8192 ≤ m.writesize)
include hr hw

end

end Wm8850.Nand
