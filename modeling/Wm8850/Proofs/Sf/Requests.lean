import Mathlib.Data.Nat.Bitwise
import Wm8850.Sf.Flash

/-! # What erase and write requests do

`sf_erase` erases the one sector of its address and does not look at the length. The three loops of
a write are one loop over the parts of the buffer (`copyLoops_eq`), and an error leaves it early;
`sf_write` then reports it as a number of bytes. The loops do not poll chip 1. -/

namespace Wm8850.Sf

open Lib List Nat

variable {info : Info} {answers : Nat → Answer} {chip : Chip} {d : Device} {k n : Nat}

/-! ### Polls -/

/-- The chip is ready at the reading `k`, and until then it is busy without an error. -/
structure ReadyAt (answers : Nat → Answer) (chip : Chip) (tick k : Nat) : Prop where
  ready : (answers (tick + k)).Ready chip
  before : ∀ j < k, ¬(answers (tick + j)).Ready chip ∧ (answers (tick + j)).Clean

lemma ReadyAt.unique {tick j : Nat} (hj : ReadyAt answers chip tick j)
    (hk : ReadyAt answers chip tick k) : j = k := by
  rcases lt_trichotomy j k with hlt | rfl | hlt
  · exact absurd hj.ready (hk.before j hlt).1
  · rfl
  · exact absurd hk.ready (hj.before k hlt).1

/-- The device after `n` readings. -/
def Device.reads (answers : Nat → Answer) : Nat → Device → Device
  | 0, d => d
  | n + 1, d => Device.reads answers n (d.read (answers d.tick))

lemma tick_reads (n : Nat) (d : Device) : (d.reads answers n).tick = d.tick + n := by
  induction n generalizing d with
  | zero => rfl
  | succ n ih =>
    rw [Device.reads, ih]
    exact Nat.add_right_comm _ _ _

lemma wrEnCtr_reads (n : Nat) (d : Device) : (d.reads answers n).wrEnCtr = d.wrEnCtr := by
  induction n generalizing d with
  | zero => rfl
  | succ n ih => exact ih _

lemma readyAt_succ {tick : Nat} : ReadyAt answers chip tick (k + 1) ↔
    (¬(answers tick).Ready chip ∧ (answers tick).Clean) ∧ ReadyAt answers chip (tick + 1) k := by
  have hshift : ∀ j, tick + 1 + j = tick + (j + 1) := fun j => by omega
  constructor
  · rintro ⟨hready, hbefore⟩
    refine ⟨hbefore 0 (succ_pos k), by rwa [hshift], fun j hj => ?_⟩
    rw [hshift]
    exact hbefore (j + 1) (by omega)
  · rintro ⟨hfirst, hready, hbefore⟩
    rw [hshift] at hready
    refine ⟨hready, fun j hj => ?_⟩
    cases j with
    | zero => exact hfirst
    | succ j =>
      rw [← hshift]
      exact hbefore j (by omega)

lemma poll_of_readyAt (hk : k < n) (h : ReadyAt answers chip d.tick k) :
    poll answers chip n d = (errOk, d.reads answers (k + 1)) := by
  induction k generalizing n d with
  | zero =>
    obtain ⟨n, rfl⟩ : ∃ m, n = m + 1 := ⟨n - 1, by omega⟩
    exact if_pos h.ready
  | succ k ih =>
    obtain ⟨n, rfl⟩ : ∃ m, n = m + 1 := ⟨n - 1, by omega⟩
    obtain ⟨⟨hbusy, hclean⟩, hrest⟩ := readyAt_succ.mp h
    have hok : ¬flashError (answers d.tick).error ≠ errOk := not_not_intro hclean
    rw [poll, if_neg hbusy, if_neg hok]
    exact ih (by omega) hrest

/-- A poll succeeds if and only if the chip gets ready in time, before an error. -/
lemma poll_ok_iff : (poll answers chip n d).1 = errOk ↔ ∃ k < n, ReadyAt answers chip d.tick k := by
  refine ⟨fun h => ?_, fun ⟨k, hk, h⟩ => congrArg Prod.fst (poll_of_readyAt hk h)⟩
  induction n generalizing d with
  | zero => cases h
  | succ n ih =>
    rw [poll] at h
    split at h
    · next hready => exact ⟨0, succ_pos n, hready, nofun⟩
    next hbusy =>
    split at h
    · next herror => exact absurd h herror
    next hclean =>
    obtain ⟨k, hk, hrest⟩ := ih h
    exact ⟨k + 1, by omega, readyAt_succ.mpr ⟨⟨hbusy, not_not.mp hclean⟩, hrest⟩⟩

/-! ### Erase -/

/-- A byte that was erased, by its address. The chip erases the whole sector of the address in
`SPI_ER_START_ADDR`. -/
def Erased (d : Device) (addr : Nat) : Prop :=
  ∃ start, .erase start ∈ d.done ∧ addr / eraseSize = start / eraseSize

lemma land_of_aligned {addr : Nat} (halign : addr % eraseSize = 0) (hlt : addr < wordSize) :
    addr &&& 0xFFFF0000 = addr := by
  unfold eraseSize at halign
  unfold wordSize at hlt
  obtain ⟨k, rfl⟩ : ∃ k, addr = k <<< 16 := ⟨addr / 2 ^ 16, by omega⟩
  have hk : k < 2 ^ 16 := by
    omega
  rw [show 0xFFFF0000 = (2 ^ 16 - 1) <<< 16 by decide, ← shiftLeft_and_distrib,
    and_two_pow_sub_one_eq_mod, mod_eq_of_lt hk]

/-- The only work of a device ends with the first reading that shows the chip ready. -/
lemma done_of_readyAt {work : Work} (hpending : d.pending = [(chip, work)])
    (h : ReadyAt answers chip d.tick k) : (d.reads answers (k + 1)).done =
      if (answers (d.tick + k)).Clean then d.done ++ [work] else d.done := by
  induction k generalizing d with
  | zero =>
    show (d.read (answers d.tick)).done = _
    have hready : (answers d.tick).Ready chip := h.ready
    simp only [Device.read, hpending, hready, decide_true, filter_cons_of_pos, filter_nil, map_cons,
      map_nil]
    rfl
  | succ k ih =>
    obtain ⟨⟨hbusy, -⟩, hrest⟩ := readyAt_succ.mp h
    have hsame : (d.read (answers d.tick)).pending = d.pending ∧
        (d.read (answers d.tick)).done = d.done := by
      simp [Device.read, hpending, hbusy]
    have hdone := ih (hsame.1.trans hpending) hrest
    rw [hsame.2] at hdone
    rw [Device.reads, hdone, show (d.read (answers d.tick)).tick + k = d.tick + (k + 1) from
      Nat.add_right_comm _ _ _]

/-- The chip was selected by the same address, so the erase is started there. -/
lemma sfErase_eq (info : Info) (answers : Nat → Answer) {instr : EraseInfo}
    (halign : instr.addr % eraseSize = 0) (hlt : instr.addr < wordSize) :
    ∃ d : Device, d.pending = [(chipAt info (wadd instr.addr info.mtdsfPhyAddr),
        .erase (wadd instr.addr info.mtdsfPhyAddr))] ∧ d.done = [] ∧ d.tick = 0 ∧
      let polled := poll answers (chipAt info (wadd instr.addr info.mtdsfPhyAddr)) timeout d
      sfErase info answers instr .fresh = if polled.1 ≠ errOk then (- EINVAL, instr, polled.2)
        else (0, { instr with state := .done }, { polled.2 with wrEnCtr := 0#32 }) := by
  generalize hchip : chipAt info (wadd instr.addr info.mtdsfPhyAddr) = chip
  refine ⟨⟨wrEn chip, 0, [(chip, .erase (wadd instr.addr info.mtdsfPhyAddr))], []⟩,
    rfl, rfl, rfl, ?_⟩
  have hgive : (Device.mk (wrEn chip) 0 [] []).give info (wadd instr.addr info.mtdsfPhyAddr)
      (.erase (wadd instr.addr info.mtdsfPhyAddr)) =
      ⟨wrEn chip, 0, [(chip, .erase (wadd instr.addr info.mtdsfPhyAddr))], []⟩ := by
    unfold Device.give
    rw [hchip]
    cases chip <;> rfl
  unfold sfErase spiFlashSectorErase
  rw [mod_eq_of_lt hlt, land_of_aligned halign hlt, hchip]
  unfold Device.fresh
  dsimp only
  rw [hgive]
  generalize poll answers chip timeout _ = polled
  by_cases hpoll : polled.1 = errOk
  · rw [if_neg (not_not_intro hpoll), if_neg (not_not_intro hpoll)]
    rfl
  · rw [if_pos hpoll, if_pos hpoll, if_pos hpoll]

/-- A request that is reported as done has erased exactly its bytes, if and only if it has one
sector and the reading at which the chip gets ready, if it does, shows no error. -/
theorem sfErase_exact_iff {instr : EraseInfo} (hphy : info.mtdsfPhyAddr % eraseSize = 0)
    (hwindow : info.mtdsfPhyAddr + info.size ≤ wordSize) (halign : instr.addr % eraseSize = 0)
    (hpos : 0 < instr.len) (hlen : instr.len % eraseSize = 0)
    (hin : instr.addr + instr.len ≤ info.size) :
    ((sfErase info answers instr .fresh).1 = 0 ∧
        (sfErase info answers instr .fresh).2.1.state = .done →
      ∀ addr, Erased (sfErase info answers instr .fresh).2.2 addr ↔
        info.mtdsfPhyAddr + instr.addr ≤ addr ∧
          addr < info.mtdsfPhyAddr + instr.addr + instr.len) ↔
    ∀ k < timeout, ReadyAt answers (chipAt info (instr.addr + info.mtdsfPhyAddr)) 0 k →
      instr.len = eraseSize ∧ (answers k).Clean := by
  obtain ⟨d, hpending, hnone, htick, heq⟩ := sfErase_eq info answers halign (by omega)
  have hstart : wadd instr.addr info.mtdsfPhyAddr = instr.addr + info.mtdsfPhyAddr :=
    wadd_of_lt (by omega)
  rw [hstart] at hpending heq
  rw [heq]
  by_cases hpoll : (poll answers (chipAt info (instr.addr + info.mtdsfPhyAddr)) timeout d).1 = errOk
  swap
  · -- An error or a timeout is returned.
    rw [if_pos hpoll]
    refine iff_of_true (fun h => absurd h.1 (show - EINVAL ≠ 0 by decide)) fun k hk hready =>
      absurd ?_ hpoll
    exact poll_ok_iff.mpr ⟨k, hk, htick ▸ hready⟩
  rw [if_neg (not_not_intro hpoll)]
  obtain ⟨k, hk, hready⟩ := poll_ok_iff.mp hpoll
  have hdone := done_of_readyAt hpending hready
  rw [poll_of_readyAt hk hready]
  rw [hnone, htick, zero_add, nil_append] at hdone
  rw [htick] at hready
  have hsector : ∀ addr, Erased { d.reads answers (k + 1) with wrEnCtr := 0#32 } addr ↔
      (answers k).Clean ∧ addr / eraseSize = (instr.addr + info.mtdsfPhyAddr) / eraseSize := by
    intro addr
    unfold Erased
    dsimp only
    rw [hdone]
    split <;> simp [*]
  simp only [hsector, and_self, true_imp_iff]
  constructor
  · intro hexact j _ hj
    rw [hj.unique hready]
    have hfirst := (hexact (info.mtdsfPhyAddr + instr.addr)).mpr (by omega)
    have hlast := (hexact (info.mtdsfPhyAddr + instr.addr + instr.len - 1)).mpr (by omega)
    refine ⟨?_, hfirst.1⟩
    have hsame := hlast.2
    unfold eraseSize at *
    omega
  · intro hone addr
    obtain ⟨hlen, hclean⟩ := hone k hk hready
    rw [iff_true_intro hclean, true_and, hlen]
    unfold eraseSize at *
    omega

/-- Two chips of 16 MB, one behind the other. -/
def twoChips : Info := ⟨0xFE000000, 0xFF000000, 0x2000000⟩

/-- Both chips are ready at every read. -/
def alwaysReady (_ : Nat) : Answer := ⟨0#32, 0#32, 0#32⟩

lemma alwaysReady_at (chip : Chip) (tick : Nat) : ReadyAt alwaysReady chip tick 0 :=
  ⟨by cases chip <;> exact BitVec.zero_and, nofun⟩

lemma alwaysReady_clean (tick : Nat) : (alwaysReady tick).Clean :=
  show flashError 0#32 = errOk by decide

/-- The last sector of chip 1. -/
theorem oneSector_erased :
    Erased (sfErase twoChips alwaysReady ⟨0xFF0000, 0x10000, .pending⟩ .fresh).2.2 0xFEFFFFFF ∧
      ¬Erased (sfErase twoChips alwaysReady ⟨0xFF0000, 0x10000, .pending⟩ .fresh).2.2
        0xFF000000 := by
  have hexact := (@sfErase_exact_iff twoChips alwaysReady ⟨0xFF0000, 0x10000, .pending⟩
    (by decide) (by decide) (by decide) (by decide) (by decide) (by decide)).mpr
    fun k _ _ => ⟨rfl, alwaysReady_clean k⟩
  have hready : (sfErase twoChips alwaysReady ⟨0xFF0000, 0x10000, .pending⟩ .fresh).1 = 0 ∧
      (sfErase twoChips alwaysReady ⟨0xFF0000, 0x10000, .pending⟩ .fresh).2.1.state = .done := by
    decide
  exact ⟨(hexact hready _).mpr (by decide), fun h => absurd ((hexact hready _).mp h) (by decide)⟩

/-- The chip refuses the erase, and reads ready. -/
def refused (_ : Nat) : Answer := ⟨0#32, 0#32, 0x20#32⟩

/-- A request for two sectors is reported as done, but the second one was not erased. A request for
one sector of a write protected chip is reported as done, and nothing was erased. -/
theorem sectors_left :
    ((sfErase twoChips alwaysReady ⟨0, 0x20000, .pending⟩ .fresh).1 = 0 ∧
      (sfErase twoChips alwaysReady ⟨0, 0x20000, .pending⟩ .fresh).2.1.state = .done ∧
      ¬Erased (sfErase twoChips alwaysReady ⟨0, 0x20000, .pending⟩ .fresh).2.2 0xFE010000) ∧
    (sfErase twoChips refused ⟨0, 0x10000, .pending⟩ .fresh).1 = 0 ∧
      (sfErase twoChips refused ⟨0, 0x10000, .pending⟩ .fresh).2.1.state = .done ∧
      (sfErase twoChips refused ⟨0, 0x10000, .pending⟩ .fresh).2.2.done = [] := by
  refine ⟨⟨by decide, by decide, ?_⟩, by decide, by decide, by decide⟩
  rintro ⟨start, hmem, hsector⟩
  have hdone : (sfErase twoChips alwaysReady ⟨0, 0x20000, .pending⟩ .fresh).2.2.done =
      [.erase 0xFE000000] := by decide
  rw [hdone, mem_singleton] at hmem
  cases hmem
  exact absurd hsector (by decide)

/-! ### Write -/

section
variable {offset : Nat} {buf : Nat → BitVec 8} {c : Copy} {loop : Loop} {ns : List Nat}

/-- The bytes that one round of a loop copies. -/
def Loop.part (loop : Loop) (len : Nat) : Nat :=
  if loop.more = true ∧ len - loop.first ≠ 0 then loop.first + 1 else loop.first

lemma Loop.part_bounds (loop : Loop) {len : Nat} (h : loop.least ≤ len) :
    0 < loop.part len ∧ loop.part len ≤ len := by
  have hpos := loop.first_pos
  have hle := loop.first_le
  unfold Loop.part
  split <;> omega

def Loop.rounds (loop : Loop) (len : Nat) : List Nat :=
  if loop.least ≤ len then loop.part len :: loop.rounds (len - loop.part len) else []
termination_by len
decreasing_by
  have := loop.part_bounds ‹_›
  omega

lemma Loop.rounds_spec (loop : Loop) (len : Nat) : (∀ n ∈ loop.rounds len, 0 < n) ∧
    (loop.rounds len).sum ≤ len ∧ len - (loop.rounds len).sum < loop.least := by
  fun_induction Loop.rounds loop len with
  | case1 len h ih =>
    obtain ⟨hpos, hle⟩ := loop.part_bounds h
    obtain ⟨hall, hsum, hleft⟩ := ih
    rw [forall_mem_cons, sum_cons]
    exact ⟨⟨hpos, hall⟩, by omega, by omega⟩
  | case2 len h => exact ⟨nofun, Nat.zero_le _, Nat.lt_of_not_le h⟩

/-- The parts in which a buffer is copied, with a poll after each. -/
def rounds (len : Nat) : List Nat :=
  let r8 := loop8.rounds len
  let r4 := loop4.rounds (len - r8.sum)
  r8 ++ (r4 ++ loop1.rounds (len - r8.sum - r4.sum))

lemma rounds_spec (len : Nat) : (∀ n ∈ rounds len, 0 < n) ∧ (rounds len).sum = len := by
  obtain ⟨h8, hle8, -⟩ := loop8.rounds_spec len
  obtain ⟨h4, hle4, -⟩ := loop4.rounds_spec (len - (loop8.rounds len).sum)
  obtain ⟨h1, hle1, hleft⟩ := loop1.rounds_spec
    (len - (loop8.rounds len).sum - (loop4.rounds (len - (loop8.rounds len).sum)).sum)
  unfold rounds
  constructor
  · intro n hn
    rcases mem_append.mp hn with hn | hn
    · exact h8 n hn
    · exact (mem_append.mp hn).elim (h4 n) (h1 n)
  · have hone : loop1.least = 1 := rfl
    rw [sum_append_nat, sum_append_nat]
    omega

/-- The loops without the lengths at which they stop. -/
def copyParts (info : Info) (answers : Nat → Answer) (offset : Nat) (buf : Nat → BitVec 8) :
    List Nat → Copy → Nat × Copy
  | [], c => (errOk, c)
  | n :: ns, c =>
    let copied := memcpyToio info offset buf n c
    let polled := poll answers .cs0 timeout copied.dev
    if polled.1 ≠ errOk then (polled.1, { copied with dev := polled.2 })
    else copyParts info answers offset buf ns { copied with dev := polled.2 }

lemma memcpyToio_succ (n : Nat) (c : Copy) : memcpyToio info offset buf (n + 1) c =
    memcpyToio info offset buf 1 (memcpyToio info offset buf n c) := by
  induction n generalizing c with
  | zero => rfl
  | succ n ih => exact ih _

lemma copyRound_eq (loop : Loop) (c : Copy) :
    copyRound info offset buf loop c = memcpyToio info offset buf (loop.part c.len) c := by
  unfold copyRound Loop.part
  dsimp only
  rw [← memcpyToio_succ, len_memcpyToio]
  split <;> rfl

lemma copyLoop_eq (loop : Loop) (c : Copy) : copyLoop info answers offset buf loop c =
    copyParts info answers offset buf (loop.rounds c.len) c := by
  fun_induction copyLoop info answers offset buf loop c with
  | case1 c h copied herror =>
    rw [Loop.rounds, if_pos h, copyParts, ← copyRound_eq]
    exact (if_pos herror).symm
  | case2 c h copied hok ih =>
    have hlen : copied.2.len = c.len - loop.part c.len := by
      rw [← len_memcpyToio info offset buf, ← copyRound_eq]
      rfl
    have hrounds : loop.rounds c.len = loop.part c.len :: loop.rounds copied.2.len := by
      rw [hlen, Loop.rounds, if_pos h]
    rw [ih, hrounds, copyParts, ← copyRound_eq]
    exact (if_neg hok).symm
  | case3 c h => rw [Loop.rounds, if_neg h, copyParts]

lemma copyParts_append (ms ns : List Nat) (c : Copy) :
    copyParts info answers offset buf (ms ++ ns) c =
      if (copyParts info answers offset buf ms c).1 ≠ errOk then
        copyParts info answers offset buf ms c
      else copyParts info answers offset buf ns (copyParts info answers offset buf ms c).2 := by
  induction ms generalizing c with
  | nil => rfl
  | cons m ms ih =>
    rw [cons_append, copyParts, copyParts]
    split
    · rfl
    · exact ih _

lemma len_copyParts (h : (copyParts info answers offset buf ns c).1 = errOk) :
    (copyParts info answers offset buf ns c).2.len = c.len - ns.sum := by
  induction ns generalizing c with
  | nil => rfl
  | cons n ns ih =>
    rw [copyParts] at h ⊢
    split at h
    · next herror => exact absurd h herror
    next hok =>
    rw [if_neg hok, ih h, len_memcpyToio, sum_cons, Nat.sub_sub]

lemma copyLoops_eq (c : Copy) : copyLoops info answers offset buf c =
    copyParts info answers offset buf (rounds c.len) c := by
  unfold copyLoops rounds
  dsimp only
  rw [copyParts_append, copyLoop_eq]
  by_cases h8 : (copyParts info answers offset buf (loop8.rounds c.len) c).1 = errOk
  · rw [if_neg (not_not_intro h8), if_neg (not_not_intro h8), copyParts_append, copyLoop_eq,
      len_copyParts h8]
    split
    · rfl
    next h4 =>
    rw [copyLoop_eq, len_copyParts (not_not.mp h4), len_copyParts h8]
  · rw [if_pos h8, if_pos h8]

/-! ### The chips during a write -/

lemma pending_reads (n : Nat) (d : Device) : (d.reads answers n).pending =
    d.pending.filter fun w => ∀ j < n, ¬(answers (d.tick + j)).Ready w.1 := by
  induction n generalizing d with
  | zero => simp [Device.reads]
  | succ n ih =>
    rw [Device.reads, ih]
    unfold Device.read
    dsimp only
    rw [filter_filter]
    refine filter_congr fun w _ => ?_
    rw [← Bool.decide_and, decide_eq_decide]
    constructor
    · rintro ⟨hrest, hfirst⟩ j hj
      cases j with
      | zero => exact hfirst
      | succ j =>
        rw [show d.tick + (j + 1) = d.tick + 1 + j by omega]
        exact hrest j (by omega)
    · intro h
      refine ⟨fun j hj => ?_, h 0 (succ_pos n)⟩
      rw [show d.tick + 1 + j = d.tick + (j + 1) by omega]
      exact h (j + 1) (by omega)

/-- Without an error nothing that was given gets lost. -/
lemma works_reads (d : Device) (hclean : ∀ j < n, (answers (d.tick + j)).Clean) :
    ((d.reads answers n).done ++ (d.reads answers n).pending.map Prod.snd).Perm
      (d.done ++ d.pending.map Prod.snd) := by
  induction n generalizing d with
  | zero => exact Perm.refl _
  | succ n ih =>
    have hrest : ∀ j < n, (answers ((d.read (answers d.tick)).tick + j)).Clean := fun j hj => by
      rw [show (d.read (answers d.tick)).tick + j = d.tick + (j + 1) from
        Nat.add_right_comm _ _ _]
      exact hclean (j + 1) (by omega)
    refine (ih _ hrest).trans ?_
    unfold Device.read
    dsimp only
    have hnow : (answers d.tick).Clean := hclean 0 (succ_pos n)
    rw [if_pos hnow, append_assoc, ← map_append]
    refine Perm.append_left _ (Perm.map _ ?_)
    simpa only [decide_not] using filter_append_perm _ d.pending

/-- The stores of `n` bytes from position `i` on, with their chips. -/
def given (info : Info) (offset : Nat) (buf : Nat → BitVec 8) (i n : Nat) : List (Chip × Work) :=
  (range' i n).map fun j =>
    (chipAt info (offset + j + info.mtdsfPhyAddr), .store (offset + j) (buf j))

/-- What the first `n` bytes of the buffer are for. -/
def storesTo (offset : Nat) (buf : Nat → BitVec 8) (n : Nat) : List Work :=
  (range' 0 n).map fun j => .store (offset + j) (buf j)

lemma storesTo_add (info : Info) (i n : Nat) : storesTo offset buf (i + n) =
    storesTo offset buf i ++ (given info offset buf i n).map Prod.snd := by
  unfold storesTo given
  rw [map_map, ← range'_append_1, map_append, zero_add]
  rfl

def Device.add (d : Device) (works : List (Chip × Work)) : Device :=
  { d with pending := d.pending ++ works }

lemma memcpyToio_eq (h : c.dev.wrEnCtr = 0x03#32) (n : Nat) :
    memcpyToio info offset buf n c =
      ⟨c.i + n, c.len - n, c.dev.add (given info offset buf c.i n)⟩ := by
  induction n generalizing c with
  | zero => simp [memcpyToio, given, Device.add]
  | succ n ih =>
    have hgive : c.dev.give info (offset + c.i + info.mtdsfPhyAddr)
        (.store (offset + c.i) (buf c.i)) = c.dev.add
          [(chipAt info (offset + c.i + info.mtdsfPhyAddr), .store (offset + c.i) (buf c.i))] := by
      have henabled : ∀ chip, c.dev.enabled chip = true := by
        intro chip
        unfold Device.enabled
        rw [h]
        cases chip <;> decide
      exact if_pos (henabled _)
    rw [memcpyToio, hgive, ih (c := ⟨c.i + 1, c.len - 1, c.dev.add _⟩) h]
    unfold given Device.add
    rw [range'_succ, map_cons, append_assoc, show c.i + (n + 1) = c.i + 1 + n by omega,
      Nat.sub_sub, Nat.add_comm 1 n]
    rfl

/-- The bytes before `i` were given to the chips. Only chip 1 may still work on them. -/
structure Given (info : Info) (offset : Nat) (buf : Nat → BitVec 8) (c : Copy) (waiting : Prop) :
    Prop where
  enabled : c.dev.wrEnCtr = 0x03#32
  works : (c.dev.done ++ c.dev.pending.map Prod.snd).Perm (storesTo offset buf c.i)
  chip : ∀ w ∈ c.dev.pending, w.1 = .cs1
  waiting : c.dev.pending ≠ [] ↔ waiting

/-- The polls after the parts of a buffer from byte `i` on, from the reading `tick` on: chip 0 gets
ready after each part, no reading shows an error, and in the end chip 1 was ready after its last
part too. `waiting` says whether it still works on one. -/
def Quiet (info : Info) (answers : Nat → Answer) (offset : Nat) : List Nat → Nat → Nat → Prop → Prop
  | [], _, _, waiting => ¬waiting
  | n :: ns, i, tick, waiting => ∃ k < timeout, ReadyAt answers .cs0 tick k ∧
      (answers (tick + k)).Clean ∧
      Quiet info answers offset ns (i + n) (tick + k + 1)
        ((waiting ∨ chipAt info (offset + i + info.mtdsfPhyAddr) = .cs1) ∧
          ∀ j < k + 1, ¬(answers (tick + j)).Ready .cs1)

lemma ReadyAt.clean {tick j : Nat} (h : ReadyAt answers chip tick k)
    (hk : (answers (tick + k)).Clean) (hj : j < k + 1) : (answers (tick + j)).Clean := by
  rcases Nat.lt_succ_iff_lt_or_eq.mp hj with hlt | rfl
  · exact (h.before j hlt).2
  · exact hk

lemma Given.part {waiting : Prop} (h : Given info offset buf c waiting) (hn : 0 < n)
    (hready : ReadyAt answers .cs0 c.dev.tick k) (hclean : (answers (c.dev.tick + k)).Clean) :
    Given info offset buf
      ⟨c.i + n, c.len - n, (c.dev.add (given info offset buf c.i n)).reads answers (k + 1)⟩
      ((waiting ∨ chipAt info (offset + c.i + info.mtdsfPhyAddr) = .cs1) ∧
        ∀ j < k + 1, ¬(answers (c.dev.tick + j)).Ready .cs1) := by
  refine ⟨(wrEnCtr_reads _ _).trans h.enabled, ?_, ?_, ?_⟩
  · refine (works_reads (c.dev.add _) fun j hj => hready.clean hclean hj).trans ?_
    unfold Device.add
    dsimp only
    rw [storesTo_add info, map_append, ← append_assoc]
    exact h.works.append_right _
  · -- Chip 0 was ready.
    intro w hw
    rw [pending_reads, mem_filter, decide_eq_true_iff] at hw
    cases hchip : w.1 with
    | cs1 => rfl
    | cs0 => exact absurd (hchip ▸ hready.ready) (hw.2 k (by omega))
  · rw [pending_reads, ne_eq, filter_eq_nil_iff, not_forall]
    constructor
    · rintro ⟨w, hw⟩
      obtain ⟨hmem, hbusy⟩ := Classical.not_imp.mp hw
      rw [not_not, decide_eq_true_iff] at hbusy
      have hcs1 : w.1 = .cs1 := by
        cases hchip : w.1 with
        | cs1 => rfl
        | cs0 => exact absurd (hchip ▸ hready.ready) (hbusy k (by omega))
      refine ⟨?_, fun j hj => hcs1 ▸ hbusy j hj⟩
      rcases mem_append.mp hmem with hmem | hmem
      · exact .inl (h.waiting.mp (ne_nil_of_mem hmem))
      · -- A part with a byte of chip 1 starts there.
        obtain ⟨j, hj, rfl⟩ := mem_map.mp hmem
        rw [mem_range'_1] at hj
        unfold chipAt at hcs1 ⊢
        right
        split at hcs1
        · cases hcs1
        · exact if_neg (by omega)
    · rintro ⟨hwait, hbusy⟩
      obtain ⟨w, hmem, hcs1⟩ : ∃ w ∈ c.dev.pending ++ given info offset buf c.i n, w.1 = .cs1 := by
        rcases hwait with hwait | hfirst
        · obtain ⟨w, hw⟩ := exists_mem_of_ne_nil _ (h.waiting.mpr hwait)
          exact ⟨w, mem_append_left _ hw, h.chip w hw⟩
        · exact ⟨_, mem_append_right _ (mem_map_of_mem (mem_range'_1.mpr ⟨le_refl _, by omega⟩)),
            hfirst⟩
      refine ⟨w, Classical.not_imp.mpr ⟨hmem, ?_⟩⟩
      rw [not_not, decide_eq_true_iff, hcs1]
      exact hbusy

lemma tick_copyParts (h : (copyParts info answers offset buf ns c).1 = errOk) :
    c.dev.tick ≤ (copyParts info answers offset buf ns c).2.dev.tick := by
  have hgive : ∀ (d : Device) addr work, (d.give info addr work).tick = d.tick := by
    intro d addr work
    unfold Device.give
    dsimp only
    split <;> rfl
  have hcopy : ∀ n (c : Copy), (memcpyToio info offset buf n c).dev.tick = c.dev.tick := by
    intro n
    induction n with
    | zero => exact fun _ => rfl
    | succ n ih => exact fun c => (ih _).trans (hgive _ _ _)
  induction ns generalizing c with
  | nil => exact le_refl _
  | cons n ns ih =>
    rw [copyParts] at h ⊢
    split at h
    · next herror => exact absurd h herror
    next hok =>
    obtain ⟨k, hk, hready⟩ := poll_ok_iff.mp (not_not.mp hok)
    rw [if_neg hok]
    refine le_trans ?_ (ih h)
    rw [poll_of_readyAt hk hready]
    dsimp only
    rw [tick_reads, hcopy]
    omega

/-- The loops end without an error, and all is stored, if and only if the polls are quiet. -/
lemma copyParts_iff {waiting : Prop} (hns : ∀ n ∈ ns, 0 < n)
    (h : Given info offset buf c waiting) {r : Nat × Copy}
    (hr : copyParts info answers offset buf ns c = r) :
    (r.1 = errOk ∧ (∀ tick, c.dev.tick ≤ tick → tick < r.2.dev.tick → (answers tick).Clean) →
      r.2.i = c.i + ns.sum ∧ c.dev.tick ≤ r.2.dev.tick ∧
        (r.2.dev.done ++ r.2.dev.pending.map Prod.snd).Perm (storesTo offset buf r.2.i)) ∧
    (r.1 = errOk ∧ (∀ tick, c.dev.tick ≤ tick → tick < r.2.dev.tick → (answers tick).Clean) ∧
      r.2.dev.pending = [] ↔ Quiet info answers offset ns c.i c.dev.tick waiting) := by
  induction ns generalizing c waiting with
  | nil =>
    subst hr
    refine ⟨fun _ => ⟨rfl, le_refl _, h.works⟩, ?_⟩
    show _ ↔ ¬waiting
    rw [← h.waiting, not_not]
    exact ⟨fun hok => hok.2.2, fun hnone => ⟨rfl, fun t hle hlt => absurd hlt (Nat.not_lt.mpr hle),
      hnone⟩⟩
  | cons n ns ih =>
    obtain ⟨hn, hrest⟩ := forall_mem_cons.mp hns
    rw [copyParts, memcpyToio_eq h.enabled] at hr
    dsimp only at hr
    split at hr
    · -- The poll after the part ends with an error or a timeout.
      next herror =>
      subst hr
      refine ⟨fun hok => absurd hok.1 herror, fun hok => absurd hok.1 herror, ?_⟩
      rintro ⟨k, hk, hready, -, -⟩
      exact (herror (poll_ok_iff.mpr ⟨k, hk, hready⟩)).elim
    next hok =>
    obtain ⟨k, hk, hready⟩ := poll_ok_iff.mp (not_not.mp hok)
    rw [poll_of_readyAt hk hready] at hr
    replace hready : ReadyAt answers .cs0 c.dev.tick k := hready
    have htick : ((c.dev.add (given info offset buf c.i n)).reads answers (k + 1)).tick =
        c.dev.tick + k + 1 := tick_reads _ _
    have hpart := fun hclean => h.part hn hready hclean
    generalize (c.dev.add _).reads answers (k + 1) = next at hr htick hpart
    -- The readings of this poll, and those of the polls behind it.
    have hsplit : c.dev.tick + k + 1 ≤ r.2.dev.tick →
        ((∀ tick, c.dev.tick ≤ tick → tick < r.2.dev.tick → (answers tick).Clean) ↔
          (answers (c.dev.tick + k)).Clean ∧
            ∀ tick, next.tick ≤ tick → tick < r.2.dev.tick → (answers tick).Clean) := by
      intro hle
      refine ⟨fun hall => ⟨hall _ (by omega) (by omega), fun t ht => hall t (by omega)⟩, ?_⟩
      rintro ⟨hlast, hall⟩ t hlo hhi
      by_cases hin : t < c.dev.tick + (k + 1)
      · obtain ⟨j, rfl⟩ := Nat.exists_eq_add_of_le hlo
        exact hready.clean hlast (by omega)
      · exact hall t (by omega) hhi
    have hle : r.1 = errOk → next.tick ≤ r.2.dev.tick := fun hr1 => by
      rw [← hr] at hr1 ⊢
      exact tick_copyParts hr1
    constructor
    · rintro ⟨hr1, hall⟩
      have hboth := (hsplit (htick ▸ hle hr1)).mp hall
      obtain ⟨hi, hle', hworks⟩ := (ih hrest (hpart hboth.1) hr).1 ⟨hr1, hboth.2⟩
      refine ⟨?_, by omega, hworks⟩
      rw [hi, sum_cons]
      exact Nat.add_assoc _ _ _
    constructor
    · rintro ⟨hr1, hall, hnone⟩
      have hboth := (hsplit (htick ▸ hle hr1)).mp hall
      have hquiet := (ih hrest (hpart hboth.1) hr).2.mp ⟨hr1, hboth.2, hnone⟩
      dsimp only at hquiet
      rw [htick] at hquiet
      exact ⟨k, hk, hready, hboth.1, hquiet⟩
    · rintro ⟨k', hk', hready', hclean, hquiet⟩
      obtain rfl := hready'.unique hready
      rw [← htick] at hquiet
      obtain ⟨hr1, hall, hnone⟩ := (ih hrest (hpart hclean) hr).2.mpr hquiet
      exact ⟨hr1, (hsplit (htick ▸ hle hr1)).mpr ⟨hclean, hall⟩, hnone⟩

lemma copied_copyStart {k : Nat} (buf : Nat → BitVec 8) (len : Nat)
    (hk : k < timeout) (h : ReadyAt answers (chipAt info (offset + info.mtdsfPhyAddr)) 0 k) :
    Given info offset buf (copyStart info answers offset len .fresh) False ∧
      (copyStart info answers offset len .fresh).dev.tick = k + 1 ∧
      (copyStart info answers offset len .fresh).i = 0 ∧
      (copyStart info answers offset len .fresh).len = len := by
  have hdone : ∀ n d, d.pending = [] → (Device.reads answers n d).pending = [] ∧
      (Device.reads answers n d).done = d.done := by
    intro n
    induction n with
    | zero => exact fun d hd => ⟨hd, rfl⟩
    | succ n ih =>
      intro d hd
      obtain ⟨hp, hw⟩ := ih (d.read (answers d.tick)) (by simp [Device.read, hd])
      exact ⟨hp, hw.trans (by simp [Device.read, hd])⟩
  obtain ⟨hp, hw⟩ := hdone (k + 1) .fresh rfl
  unfold copyStart spiReadStatus
  rw [poll_of_readyAt (d := .fresh) hk h]
  refine ⟨⟨rfl, ?_, ?_, ?_⟩, ?_, rfl, rfl⟩
  · dsimp only
    rw [hp, hw]
    exact Perm.refl _
  · dsimp only
    rw [hp]
    exact nofun
  · dsimp only
    rw [hp]
    exact ⟨fun h => h rfl, False.elim⟩
  · exact (tick_reads _ _).trans (zero_add _)

/-- The call meets an error or a timeout: in the first poll, after a part, or in the error register
at any reading. -/
def Faulty (info : Info) (answers : Nat → Answer) (offset : Nat) (buf : Nat → BitVec 8)
    (len : Nat) :
    Prop :=
  let start := copyStart info answers offset len .fresh
  (spiReadStatus answers (chipAt info (offset + info.mtdsfPhyAddr)) .fresh).1 ≠ errOk ∨
    (copyLoops info answers offset buf start).1 ≠ errOk ∨
    ∃ tick < (copyLoops info answers offset buf start).2.dev.tick, ¬(answers tick).Clean

/-- If the call returns `0`, it reports `len` bytes and each was stored once. After a fault it does
not return `0`. -/
structure WriteRight (info : Info) (answers : Nat → Answer) (offset : Nat) (buf : Nat → BitVec 8)
    (len : Nat) : Prop where
  stored : (sfWrite info answers offset buf len .fresh).1 = 0 →
    (sfWrite info answers offset buf len .fresh).2.1 = some len ∧
      (sfWrite info answers offset buf len .fresh).2.2.done.Perm (storesTo offset buf len)
  fault : Faulty info answers offset buf len → (sfWrite info answers offset buf len .fresh).1 ≠ 0

/-- The first poll and those after the parts. -/
def QuietWrite (info : Info) (answers : Nat → Answer) (offset len : Nat) : Prop :=
  ∃ k < timeout, ReadyAt answers (chipAt info (offset + info.mtdsfPhyAddr)) 0 k ∧
    (answers k).Clean ∧ Quiet info answers offset (rounds len) 0 (k + 1) False

/-- A write is right if and only if it is out of bounds, or all its polls are quiet. -/
theorem sfWrite_right_iff (info : Info) (answers : Nat → Answer) (offset : Nat)
    (buf : Nat → BitVec 8) (len : Nat) : WriteRight info answers offset buf len ↔
      info.size < offset + len ∨ QuietWrite info answers offset len := by
  by_cases hsize : offset + len > info.size
  · have hret : sfWrite info answers offset buf len .fresh = (- EINVAL, none, .fresh) :=
      if_pos hsize
    refine iff_of_true ⟨?_, fun _ => ?_⟩ (.inl hsize)
    · rw [hret]
      exact fun h => absurd h (show - EINVAL ≠ 0 by decide)
    · rw [hret]
      exact show - EINVAL ≠ 0 by decide
  have heq : sfWrite info answers offset buf len .fresh =
      (0, some (spiFlashSectorWrite info answers offset buf len .fresh).1,
        (spiFlashSectorWrite info answers offset buf len .fresh).2) := if_neg hsize
  have hret : (sfWrite info answers offset buf len .fresh).1 = 0 := by rw [heq]
  obtain ⟨hpos, hsum⟩ := rounds_spec len
  -- What the call leaves, if its loops end without an error.
  have hwrite : (copyLoops info answers offset buf (copyStart info answers offset len .fresh)).1 =
      errOk → (sfWrite info answers offset buf len .fresh).2.1 =
        some (copyLoops info answers offset buf (copyStart info answers offset len .fresh)).2.i ∧
      (sfWrite info answers offset buf len .fresh).2.2.done =
        (copyLoops info answers offset buf
          (copyStart info answers offset len .fresh)).2.dev.done := by
    intro hloops
    rw [heq]
    unfold spiFlashSectorWrite
    rw [if_neg (not_not_intro hloops)]
    exact ⟨rfl, rfl⟩
  constructor
  · intro h
    have hquiet : ¬Faulty info answers offset buf len := fun hfault => h.fault hfault hret
    unfold Faulty at hquiet
    dsimp only at hquiet
    rw [not_or, not_or, not_not, not_not] at hquiet
    obtain ⟨hfirst, hloops, hclean⟩ := hquiet
    replace hclean := fun t ht => not_not.mp (not_and.mp (not_exists.mp hclean t) ht)
    obtain ⟨k, hk, hready⟩ := poll_ok_iff.mp hfirst
    obtain ⟨hgiven, htick, hi, hlen⟩ := copied_copyStart buf len hk hready
    obtain ⟨-, hdone⟩ := h.stored hret
    rw [(hwrite hloops).2] at hdone
    rw [copyLoops_eq, hlen] at hloops hclean hdone
    obtain ⟨hends, hiff⟩ := copyParts_iff hpos hgiven rfl
    obtain ⟨hri, hle, hworks⟩ := hends ⟨hloops, fun t _ => hclean t⟩
    rw [hri, hi, zero_add, hsum] at hworks
    have hnone := hworks.length_eq
    rw [length_append, hdone.length_eq, length_map] at hnone
    have hquiet := hiff.mp ⟨hloops, fun t _ => hclean t, eq_nil_of_length_eq_zero (by omega)⟩
    rw [hi, htick] at hquiet
    exact .inr ⟨k, hk, hready, hclean k (by omega), hquiet⟩
  · rintro (hout | ⟨k, hk, hready, hclean, hquiet⟩)
    · exact absurd hout hsize
    obtain ⟨hgiven, htick, hi, hlen⟩ := copied_copyStart buf len hk hready
    rw [← hi, ← htick] at hquiet
    obtain ⟨hends, hiff⟩ :=
      copyParts_iff hpos hgiven (rfl : copyParts info answers offset buf _ _ = _)
    obtain ⟨hloops, hall, hnone⟩ := hiff.mpr hquiet
    obtain ⟨hri, -, hworks⟩ := hends ⟨hloops, hall⟩
    rw [hri, hi, zero_add, hsum, hnone, map_nil, append_nil] at hworks
    rw [hi, zero_add, hsum] at hri
    have hparts := @copyLoops_eq info answers offset buf (copyStart info answers offset len .fresh)
    rw [hlen] at hparts
    rw [hparts] at hwrite
    obtain ⟨hretlen, hdone⟩ := hwrite hloops
    refine ⟨fun _ => ⟨hretlen.trans (congrArg some hri), hdone ▸ hworks⟩, ?_⟩
    unfold Faulty
    dsimp only
    rw [hparts]
    rintro (hfirst | hbad | ⟨t, ht, hdirty⟩)
    · exact absurd (poll_ok_iff.mpr ⟨k, hk, hready⟩) hfirst
    · exact absurd hloops hbad
    · refine absurd ?_ hdirty
      by_cases hin : t < k + 1
      · have hnow := hready.clean (by rwa [zero_add]) hin
        rwa [zero_add] at hnow
      · exact hall t (by omega) ht

end

def countingBytes (i : Nat) : BitVec 8 := BitVec.ofNat 8 i

/-- A write of 13 bytes, 6 to chip 1 and 7 to chip 0. -/
theorem bothChips_written : WriteRight twoChips alwaysReady 0xFFFFFA countingBytes 13 := by
  have hrounds : rounds 13 = [8, 5] := by decide +kernel
  have hpart : ∀ tick, 0 < timeout ∧ ReadyAt alwaysReady .cs0 tick 0 ∧
      (alwaysReady (tick + 0)).Clean :=
    fun tick => ⟨by decide, alwaysReady_at .cs0 tick, alwaysReady_clean _⟩
  refine (sfWrite_right_iff _ _ _ _ _).mpr (.inr
    ⟨0, by decide, alwaysReady_at _ 0, alwaysReady_clean 0, ?_⟩)
  rw [hrounds]
  obtain ⟨hlt, hready, hclean⟩ := hpart 1
  obtain ⟨-, hready', hclean'⟩ := hpart 2
  exact ⟨0, hlt, hready, hclean, 0, hlt, hready', hclean',
    fun hwait => hwait.2 0 (by decide) (alwaysReady_at .cs1 2).ready⟩

/-- A chip that is ready before the write, and then reports that it is write protected. -/
def writeProtected (tick : Nat) : Answer :=
  if tick = 0 then ⟨0#32, 0#32, 0#32⟩ else ⟨0x1#32, 0#32, 0x20#32⟩

/-- A write of 34 bytes to such a chip. It stops after 8 bytes with `ERR_PROG_ERROR`, which is 34.
The write returns 0 and reports 34 bytes, and none is stored. -/
theorem error_taken_for_length :
    sfWrite twoChips writeProtected 0x1000000 countingBytes 34 .fresh =
      (0, some 34, ⟨0x03#32, 2, given twoChips 0x1000000 countingBytes 0 8, []⟩) ∧
      ¬WriteRight twoChips writeProtected 0x1000000 countingBytes 34 := by
  have hstart : copyStart twoChips writeProtected 0x1000000 34 .fresh =
      ⟨0, 34, ⟨0x03#32, 1, [], []⟩⟩ := by rfl
  have hloops : copyLoops twoChips writeProtected 0x1000000 countingBytes
      ⟨0, 34, ⟨0x03#32, 1, [], []⟩⟩ =
        (34, ⟨8, 26, ⟨0x03#32, 2, given twoChips 0x1000000 countingBytes 0 8, []⟩⟩) := by
    unfold copyLoops
    rw [copyLoop]
    rfl
  have hwrite : sfWrite twoChips writeProtected 0x1000000 countingBytes 34 .fresh =
      (0, some 34, ⟨0x03#32, 2, given twoChips 0x1000000 countingBytes 0 8, []⟩) := by
    unfold sfWrite spiFlashSectorWrite
    rw [hstart, hloops]
    rfl
  refine ⟨hwrite, fun hright => ?_⟩
  have hstored := (hright.stored (by rw [hwrite])).2.length_eq
  rw [hwrite] at hstored
  cases hstored

end Wm8850.Sf
