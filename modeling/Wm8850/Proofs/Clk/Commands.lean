import Wm8850.Proofs.Clk.Freq

/-! # What `auto_pll_divisor` promises

`GET_FREQ` reads what a command has set, and `SET_PLLDIV` finds and programs the best setting. The
exceptions come from the divisor 32, which the field of the divisor has no room for, from the byte
of the divisor, of which every reader takes other bits, and from the factors of the SD/MMC
devices. -/

namespace Wm8850.Clk

open Lib List

variable {dev : Dev} {no base : Nat} {s : Setting} {div offset : Nat} {run : Int × Pmc}

/-! ### The readings of the divisor -/

/-- The divisor that the hardware counts with. A field of 0 stands for 32. -/
def hwDivisor (dev : Dev) (byte : Nat) : Nat :=
  (if byte &&& 0x1F = 0 then 32 else byte &&& 0x1F) *
    if dev.isSdmmc then (if byte &&& 32 ≠ 0 then 64 else 1) * 2 else 1

lemma and_field (byte : Nat) : byte &&& 0x1F = byte % 32 := Nat.and_two_pow_sub_one_eq_mod byte 5

lemma and_bit5 {field : Nat} (h : field < 32) (j : Bool) :
    ((if j then 32 else 0) + field) &&& 32 ≠ 0 ↔ j = true := by
  have hall : ∀ j : Bool, ∀ field : Fin 32, ((if j then 32 else 0) + field.val) &&& 32 ≠ 0 ↔
      j = true := by
    decide +kernel
  exact hall j ⟨field, h⟩

lemma divisorOf_field (dev : Dev) (j : Bool) (hlt : div < 32) (hj : j = true → dev.isSdmmc = true) :
    divisorOf dev ((if j then 32 else 0) + div) = div * divFactor dev j := by
  rw [divisorOf, divFactor, and_field]
  simp only [and_bit5 hlt]
  cases j with
  | true =>
    rw [if_pos (hj rfl), if_pos (hj rfl)]
    simp only [if_true]
    omega
  | false =>
    simp only [Bool.false_eq_true, if_false]
    split <;> omega

lemma divisorOf_of_not_sdmmc (h : dev.isSdmmc = false) (byte : Nat) :
    divisorOf dev byte = byte % 32 := by
  rw [divisorOf, h, ← and_field]
  rfl

lemma divisorOf_le (dev : Dev) (byte : Nat) : divisorOf dev byte ≤ 3968 := by
  rw [divisorOf, and_field]
  split
  · split <;> omega
  · omega

/-- An SD/MMC device reads more than the byte that is there. -/
lemma divisorOf_of_sdmmc (h : dev.isSdmmc = true) {byte : Nat} (hbyte : byte < 256)
    (hpos : 1 ≤ byte) :
    divisorOf dev byte ≠ byte := by
  rw [divisorOf, if_pos h, and_field]
  split <;> omega

/-! ### The frequencies of a setting

A PLL that makes at least 24 MHz has another frequency for every divisor of up to 4000. -/

lemma pllFreq_zero (word : Nat) : pllFreq word 0 = 0 := by
  rw [pllFreq, mul_zero, Nat.div_zero]

lemma pllFreq_pllWord_eq (hs : s.InRange) (a : Nat) :
    pllFreq (pllWord s).toNat a = 24000000 * (2 * (s.df + 1)) / ((s.dr + 1) * 2 ^ s.dq * a) := by
  obtain ⟨hf, hr, hq⟩ := fields_pllWord hs
  rw [pllFreq, hf, hr, hq]
  congr 1
  omega

lemma le_pllFreq_pllWord (hs : s.InRange) {a : Nat} (ha : a ≤ 4000) (hpos : 0 < a) :
    a ≤ pllFreq (pllWord s).toNat a := by
  have hden : 0 < (s.dr + 1) * 2 ^ s.dq := Nat.mul_pos (Nat.succ_pos _) (Nat.two_pow_pos _)
  rw [pllFreq_pllWord_eq hs, Nat.le_div_iff_mul_le (Nat.mul_pos hden hpos)]
  calc a * ((s.dr + 1) * 2 ^ s.dq * a) = a * a * ((s.dr + 1) * 2 ^ s.dq) := by ac_rfl
    _ ≤ 4000 * 4000 * (2 * (s.df + 1)) := Nat.mul_le_mul (Nat.mul_le_mul ha ha) hs.pll_ge
    _ ≤ 24000000 * (2 * (s.df + 1)) := Nat.mul_le_mul_right _ (by decide)

lemma div_mul_lt {num den a b : Nat} (hlt : a < b) (hpos : 0 < a) (hden : 0 < den)
    (hle : a ≤ num / (den * a)) :
    num / (den * b) < num / (den * a) := by
  rw [Nat.div_lt_iff_lt_mul (Nat.mul_pos hden (hpos.trans hlt))]
  calc num < den * a * (num / (den * a) + 1) := Nat.lt_mul_div_succ num (Nat.mul_pos hden hpos)
    _ ≤ den * a * (num / (den * a)) + den * (num / (den * a)) :=
      Nat.add_le_add_left (Nat.mul_le_mul_left _ hle) _
    _ = num / (den * a) * (den * (a + 1)) := by
      rw [← Nat.add_mul, ← Nat.mul_succ, Nat.mul_comm]
    _ ≤ num / (den * a) * (den * b) := Nat.mul_le_mul_left _ (Nat.mul_le_mul_left _ hlt)

lemma pllFreq_pllWord_lt (hs : s.InRange) {a b : Nat} (hlt : a < b) (ha : a ≤ 4000) (hpos : 0 < a) :
    pllFreq (pllWord s).toNat b < pllFreq (pllWord s).toNat a := by
  have hden : 0 < (s.dr + 1) * 2 ^ s.dq := Nat.mul_pos (Nat.succ_pos _) (Nat.two_pow_pos _)
  have hle := le_pllFreq_pllWord hs ha hpos
  rw [pllFreq_pllWord_eq hs] at hle
  rw [pllFreq_pllWord_eq hs, pllFreq_pllWord_eq hs]
  exact div_mul_lt hlt hpos hden hle

lemma pllFreq_pllWord_lt_int (hs : s.InRange) (a : Nat) : pllFreq (pllWord s).toNat a < 2 ^ 31 := by
  have hden : s.dr + 1 ≤ (s.dr + 1) * 2 ^ s.dq := Nat.le_mul_of_pos_right _ (Nat.two_pow_pos _)
  obtain rfl | hpos := Nat.eq_zero_or_pos a
  · rw [pllFreq_zero]
    decide
  refine (pllFreq_anti Nat.one_pos hpos).trans_lt ?_
  have hlt := hs.pll_lt
  rw [pllFreq_pllWord_eq hs, mul_one, Nat.div_lt_iff_lt_mul (by omega)]
  omega

lemma pllFreq_pllWord_inj (hs : s.InRange) {a b : Nat} (ha : a ≤ 4000) (hb : b ≤ 4000) :
    wrapInt ↑(pllFreq (pllWord s).toNat a) = wrapInt ↑(pllFreq (pllWord s).toNat b) ↔ a = b := by
  have hinta := pllFreq_pllWord_lt_int hs a
  have hintb := pllFreq_pllWord_lt_int hs b
  refine ⟨fun heq => ?_, fun heq => by rw [heq]⟩
  rw [wrapInt_of_mem (by omega) (by omega), wrapInt_of_mem (by omega) (by omega), Int.natCast_inj]
    at heq
  have hdiff : ∀ {a b}, a < b → a ≤ 4000 → b ≤ 4000 →
      pllFreq (pllWord s).toNat a ≠ pllFreq (pllWord s).toNat b := by
    intro a b hlt ha hb
    obtain rfl | hpos := Nat.eq_zero_or_pos a
    · have hle := le_pllFreq_pllWord hs hb hlt
      rw [pllFreq_zero]
      omega
    · exact (pllFreq_pllWord_lt hs hlt ha hpos).ne'
  obtain hlt | hsame | hgt := lt_trichotomy a b
  · exact (hdiff hlt ha hb heq).elim
  · exact hsame
  · exact (hdiff hgt hb ha heq.symm).elim

/-! ### Reading what was set -/

def lastDivisor (no : Nat) : Nat := if no = 2 then 30 else 31

/-- When a frequency is read as it was set. `SET_DIV` finds a divisor below 32; `SET_PLL` counts
with the byte of the divisor as it is; and `SET_PLLDIV` needs no divisor of 32 and leaves out the
factor of the SD/MMC devices. -/
def ReadsBack (dev : Dev) (cmd : ClkCmd) (no offset : Nat) (unit freq : Int) (p : Pmc) : Prop :=
  match cmd with
  | .setDiv =>
    pllFreq (p.reg (pmcPll no)).toNat
      (lastDivisor no * divFactor dev
        (lowRange dev (p.reg (pmcPll no)).toNat (divisorTarget unit freq))) ≤
      divisorTarget unit freq
  | .setPll => p.divByte offset = 0 ∨ (dev.isSdmmc = false ∧ p.divByte offset < 32)
  | .setPlldiv => dev.isSdmmc = false ∧ ∀ base, unitBase unit = some base →
    ¬Needs32 no (toHz freq base)
  | _ => False

lemma PllSet.getFreq_eq_iff (h : PllSet no s run) (hdev : calcPllNum dev = .pll no offset)
    (hvd : s.vd ≤ 4000) :
    (getFreq dev run.2).1 = run.1 ↔ divisorOf dev (run.2.divByte offset) = s.vd := by
  have hle := divisorOf_le dev (run.2.divByte offset)
  rw [getFreq_fst hdev, h.word, h.ret, ← pllFreq_pllWord h.inRange,
    pllFreq_pllWord_inj h.inRange (by omega) hvd]

/-- Through a divisor of 32 and a factor of at most 128, every PLL makes a frequency that fits into
an `int`. -/
lemma pllFreq_32_bounds (word : Nat) {factor : Nat} (hpos : 0 < factor) (hle : factor ≤ 128) :
    0 < pllFreq word (32 * factor) ∧ pllFreq word (32 * factor) < 2 ^ 31 := by
  have hf : 2 ≤ getDivf word ∧ getDivf word ≤ 256 := by
    have : (word >>> 16) &&& maxDf ≤ 127 := Nat.and_le_right
    rw [getDivf]
    omega
  have hr : 1 ≤ getDivr word ∧ getDivr word ≤ 2 := by
    have : (word >>> 8) &&& maxDr ≤ 1 := Nat.and_le_right
    rw [getDivr]
    omega
  have hq : 1 ≤ getDivq word ∧ getDivq word ≤ 8 := by
    rw [getDivq, Nat.one_shiftLeft]
    exact ⟨Nat.two_pow_pos _, Nat.pow_le_pow_right (j := 3) (by decide) Nat.and_le_right⟩
  have hlow : 1 * 1 * (32 * 1) ≤ getDivr word * getDivq word * (32 * factor) :=
    Nat.mul_le_mul (Nat.mul_le_mul hr.1 hq.1) (Nat.mul_le_mul_left _ hpos)
  have hhigh : getDivr word * getDivq word * (32 * factor) ≤ 2 * 8 * (32 * 128) :=
    Nat.mul_le_mul (Nat.mul_le_mul hr.2 hq.2) (Nat.mul_le_mul_left _ hle)
  rw [pllFreq]
  generalize getDivr word * getDivq word * (32 * factor) = den at hlow hhigh ⊢
  generalize getDivf word = f at hf ⊢
  refine ⟨Nat.div_pos ?_ (by omega), ?_⟩
  · have hnum : 24 * 2 * 1000000 ≤ 24 * f * 1000000 :=
      Nat.mul_le_mul_right _ (Nat.mul_le_mul_left _ hf.1)
    exact hhigh.trans (le_trans (by decide) hnum)
  · rw [Nat.div_lt_iff_lt_mul (by omega)]
    omega

lemma DivisorSet.getFreq_eq_iff {target : Nat} {p : Pmc}
    (h : DivisorSet dev no offset target p run div) (hdev : calcPllNum dev = .pll no offset) :
    (getFreq dev run.2).1 = run.1 ↔ pllFreq (p.reg (pmcPll no)).toNat
      (lastDivisor no * divFactor dev (lowRange dev (p.reg (pmcPll no)).toNat target)) ≤
        target := by
  have hfactor : 0 < divFactor dev (lowRange dev (p.reg (pmcPll no)).toNat target) := by
    rw [divFactor]
    split
    · split <;> decide
    · decide
  have hsd : lowRange dev (p.reg (pmcPll no)).toNat target = true → dev.isSdmmc = true := by
    intro hlow
    rw [lowRange, Bool.and_eq_true] at hlow
    exact hlow.1
  have hbyte := h.byte
  have hcounts := h.counts
  rw [getFreq_fst hdev, h.pll, h.ret]
  obtain heq | hlt := Nat.eq_or_lt_of_le h.le
  · -- the field of 32 is 0, and so is the frequency that is read
    rw [if_pos heq] at hbyte
    rw [hbyte, divisorOf_field dev _ (by decide) hsd, zero_mul, pllFreq_zero, heq]
    have hlast := h.least (lastDivisor no) (by rw [lastDivisor]; split <;> decide)
      (by rw [heq, lastDivisor]; split <;> decide) (by rw [lastDivisor]; split <;> omega)
    refine ⟨fun hsame => ?_, fun hle => absurd hlast (not_lt.mpr hle)⟩
    have hbounds := pllFreq_32_bounds (p.reg (pmcPll no)).toNat hfactor
      (show divFactor dev _ ≤ 128 by rw [divFactor]; split <;> [split <;> decide; decide])
    rw [wrapInt_of_mem (by decide) (by decide), wrapInt_of_mem (by omega) (by omega)] at hsame
    omega
  · rw [if_neg hlt.ne] at hbyte
    rw [hbyte, divisorOf_field dev _ hlt hsd]
    refine ⟨fun _ => le_trans (pllFreq_anti (Nat.mul_pos h.pos hfactor)
      (Nat.mul_le_mul_right _ ?_)) h.le_target, fun _ => rfl⟩
    rw [lastDivisor]
    split <;> omega

/-- A command that does not return -1 sets what `GET_FREQ` reads, exactly when `ReadsBack` holds. -/
theorem getFreq_eq_iff_readsBack (dev : Dev) (cmd : ClkCmd) (unit freq unit' freq' : Int) (p : Pmc)
    (no offset : Nat) (hdev : calcPllNum dev = .pll no offset)
    (hcmd : cmd = .setDiv ∨ cmd = .setPll ∨ cmd = .setPlldiv)
    (hret : (autoPllDivisor dev cmd unit freq p).1 ≠ -1) :
    (autoPllDivisor dev .getFreq unit' freq' (autoPllDivisor dev cmd unit freq p).2).1 =
        (autoPllDivisor dev cmd unit freq p).1 ↔ ReadsBack dev cmd no offset unit freq p := by
  obtain rfl | rfl | rfl := hcmd
  · obtain ⟨div, hset⟩ := setDivisor_spec hdev unit freq p hret
    exact hset.getFreq_eq_iff hdev
  · -- `SET_PLL` leaves the divisor as it is
    obtain ⟨base, -, hset, hbyte⟩ := setPllSpeed_spec hdev unit freq p hret
    have hlt : p.divByte offset < 256 := Nat.mod_lt _ (by decide)
    refine (hset.getFreq_eq_iff hdev (show p.divByte offset ≤ 4000 by omega)).trans ?_
    rw [hbyte, speedSetting, ReadsBack]
    cases hsd : dev.isSdmmc with
    | true =>
      obtain hzero | hpos := Nat.eq_zero_or_pos (p.divByte offset)
      · rw [hzero]
        simp [divisorOf]
      · have hne := divisorOf_of_sdmmc hsd hlt hpos
        simp [hne, hpos.ne']
    | false =>
      rw [divisorOf_of_not_sdmmc hsd]
      simp only [true_and]
      omega
  · obtain ⟨⟨base, hunit⟩, hen⟩ := setPllDivisor_ne hdev hret
    obtain ⟨hset, hbyte⟩ := setPllDivisor_run hdev freq hunit p hen
    obtain ⟨hpos, hle⟩ := divisorSetting_vd no (toHz freq base)
    refine (hset.getFreq_eq_iff hdev (by omega)).trans ?_
    simp only [ReadsBack, hunit, Option.some.injEq, forall_eq', ← divisorSetting_vd_eq_32]
    rw [hbyte]
    cases hsd : dev.isSdmmc with
    | true =>
      simp only [Bool.true_eq_false, false_and, iff_false]
      split
      · rw [divisorOf, if_pos hsd, Nat.zero_and, zero_mul, zero_mul]
        omega
      · exact divisorOf_of_sdmmc hsd (by omega) hpos
    | false =>
      rw [divisorOf_of_not_sdmmc hsd]
      simp only [true_and]
      split <;> omega

/-- A controller with all clocks on, every PLL at 48 MHz and `byte` in the registers of the
divisors. -/
def allOn (byte : BitVec 32) : Pmc where
  reg offset := if 0x300 ≤ offset then byte else if 0x250 ≤ offset then BitVec.allOnes 32 else 0#32
  devEnCount := fun _ => 1

theorem getFreq_eq_sdmmc_arm :
    (autoPllDivisor .sdmmc0 .getFreq 0 0 (autoPllDivisor .sdmmc0 .setDiv 1 400 (allOn 7)).2).1 =
        (autoPllDivisor .sdmmc0 .setDiv 1 400 (allOn 7)).1 ∧
      (autoPllDivisor .arm .getFreq 0 0 (autoPllDivisor .arm .setPlldiv 2 50 (allOn 7)).2).1 =
        (autoPllDivisor .arm .setPlldiv 2 50 (allOn 7)).1 := by
  refine ⟨(getFreq_eq_iff_readsBack .sdmmc0 .setDiv 1 400 0 0 (allOn 7) 1 0x330 rfl (.inl rfl)
    (by decide +kernel)).mpr ?_,
    (getFreq_eq_iff_readsBack .arm .setPlldiv 2 50 0 0 (allOn 7) 0 0x300 rfl (.inr (.inr rfl))
    (by decide +kernel)).mpr ⟨rfl, ?_⟩⟩
  · rw [ReadsBack]
    decide +kernel
  · intro base hbase
    cases hbase
    rw [← divisorSetting_vd_eq_32]
    decide +kernel

/-- A divisor of 32 is stored as 0, and `GET_FREQ` divides by 0. For an SD/MMC device `SET_PLLDIV`
leaves out the factor 2 that `GET_FREQ` has, and `SET_PLL` counts with all bits of the byte. -/
theorem getFreq_differs :
    (autoPllDivisor .sf .setDiv 0 1500000 (allOn 7)).1 = 1500000 ∧
      (autoPllDivisor .sf .getFreq 0 0 (autoPllDivisor .sf .setDiv 0 1500000 (allOn 7)).2).1 = 0 ∧
      (autoPllDivisor .sdmmc0 .setPlldiv 2 50 (allOn 7)).1 = 50000000 ∧
      (autoPllDivisor .sdmmc0 .getFreq 0 0 (autoPllDivisor .sdmmc0 .setPlldiv 2 50 (allOn 7)).2).1 =
        25000000 ∧
      (autoPllDivisor .arm .setPll 2 10 (allOn 33)).1 = 10000000 ∧
      (autoPllDivisor .arm .getFreq 0 0 (autoPllDivisor .arm .setPll 2 10 (allOn 33)).2).1 =
        330000000 := by
  refine ⟨?_, ?_, ?_, ?_, ?_, ?_⟩ <;> decide +kernel

/-! ### The best setting -/

/-- The registers hold a setting: the hardware divides the clock of the PLL by its divisor, and by
two more for an SD/MMC device. -/
structure Programs (dev : Dev) (no offset : Nat) (s : Setting) (p : Pmc) : Prop where
  divf : getDivf (p.reg (pmcPll no)).toNat = (s.df + 1) * 2
  divr : getDivr (p.reg (pmcPll no)).toNat = s.dr + 1
  divq : getDivq (p.reg (pmcPll no)).toNat = 2 ^ s.dq
  div : hwDivisor dev (p.divByte offset) = s.vd * if dev.isSdmmc then 2 else 1

lemma hwDivisor_stored (dev : Dev) (hpos : 1 ≤ div) (hle : div ≤ 32) :
    hwDivisor dev (if div = 32 then 0 else div) = div * if dev.isSdmmc then 2 else 1 := by
  obtain rfl | hlt := Nat.eq_or_lt_of_le hle
  · rw [if_pos rfl, hwDivisor]
    cases dev.isSdmmc <;> rfl
  have hbit : ¬div &&& 32 ≠ 0 := by simpa using and_bit5 hlt false
  rw [if_neg hlt.ne, hwDivisor, and_field, Nat.mod_eq_of_lt hlt,
    if_neg (Nat.pos_iff_ne_zero.mp hpos),
    if_neg hbit]

/-- The greatest frequency of an admissible setting that is not above the target. -/
def IsBest (target : Int) (f : Nat) : Prop :=
  IsGreatest {f : Nat | ∃ s : Setting, s.Admissible ∧ s.freq = f ∧ (f : Int) ≤ target} f

lemma IsFirst.isBest {target : Nat} (h2 : no ≠ 2) (h6 : no ≠ 6)
    (h : IsFirst (candidates no target) target s) :
    s.Admissible ∧ IsBest target s.freq := by
  obtain ⟨hs, hle⟩ := (mem_candidates h2 h6).mp h.mem
  refine ⟨hs, ⟨s, hs, rfl, Int.ofNat_le.mpr hle⟩, ?_⟩
  rintro f ⟨s', hs', rfl, hle'⟩
  have hbest := h.best s' ((mem_candidates h2 h6).mpr ⟨hs', Int.ofNat_le.mp hle'⟩)
  simp only [dist] at hbest
  omega

/-- With the clock on, a PLL other than 2 and 6 and a target from the lowest frequency to 4 GHz,
`set_pll_divisor` returns and programs the best setting. The exception is an SD/MMC device with the
byte 32, the field 0 with the factor 64: it stays when the new divisor is 32. -/
theorem setPllDivisor_best_iff (dev : Dev) (no offset : Nat)
    (hdev : calcPllNum dev = .pll no offset) (h2 : no ≠ 2) (h6 : no ≠ 6) (unit freq : Int)
    (base : Nat) (hunit : unitBase unit = some base) (p : Pmc) (hen : p.clkEnabled dev = true)
    (hlo : ∃ s : Setting, s.Admissible ∧ (s.freq : Int) ≤ freq * base)
    (hhi : freq * base ≤ 4000000000) :
    (∃ s : Setting, s.Admissible ∧ IsBest (freq * base) s.freq ∧
        (setPllDivisor dev unit freq p).1 = s.freq ∧
        Programs dev no offset s (setPllDivisor dev unit freq p).2) ↔
      ¬(dev.isSdmmc = true ∧ p.divByte offset = 32 ∧ Needs32 no (freq * base).toNat) := by
  obtain ⟨low, hlow, hlowle⟩ := hlo
  have htarget : toHz freq base = (freq * base).toNat := by
    rw [toHz, Int.emod_eq_of_lt (by omega) (by omega)]
  obtain ⟨hset, hbyte⟩ := setPllDivisor_run hdev freq hunit p hen
  obtain ⟨hpos, hle⟩ := divisorSetting_vd no (toHz freq base)
  rw [htarget] at hset hbyte hpos hle
  rw [← divisorSetting_vd_eq_32]
  constructor
  · rintro ⟨s, hs, -, -, hprog⟩ ⟨hsd, hold, hvd⟩
    -- the byte is still 32, which divides by 4096
    have hdiv := hprog.div
    have hvd' := hs.vd_le
    rw [hbyte, if_neg (by simp [hold]), hvd, hwDivisor, if_pos hsd, if_pos hsd] at hdiv
    have hdiv : 32 * (64 * 2) = s.vd * 2 := hdiv
    omega
  · intro hnot
    obtain ⟨-, hnone⟩ | hfirst := divisorSetting_first no (freq * base).toNat
    · -- the search finds a setting, since `low` is one
      have hfar := hnone low ((mem_candidates h2 h6).mpr ⟨hlow, by omega⟩)
      rw [dist, far] at hfar
      omega
    obtain ⟨hs, hbest⟩ := hfirst.isBest h2 h6
    rw [Int.toNat_of_nonneg (by omega)] at hbest
    refine ⟨_, hs, hbest, ?_, ?_⟩
    · have hint := pllFreq_pllWord_lt_int hset.inRange (divisorSetting no (freq * base).toNat).vd
      rw [pllFreq_pllWord hset.inRange] at hint
      rw [hset.ret]
      exact wrapInt_of_mem (by omega) (by omega)
    obtain ⟨hf, hr, hq⟩ := fields_pllWord hset.inRange
    refine ⟨by rw [hset.word, hf], by rw [hset.word, hr], by rw [hset.word, hq], ?_⟩
    rw [← hwDivisor_stored dev hpos hle, hbyte]
    by_cases hkept : (divisorSetting no (freq * base).toNat).vd = 32 ∧ p.divByte offset = 32
    · -- nothing is written, and bit 5 does not count for a device other than SD/MMC
      have hsd : dev.isSdmmc = false := by
        cases hsd : dev.isSdmmc with
        | true => exact (hnot ⟨hsd, hkept.2, hkept.1⟩).elim
        | false => rfl
      rw [if_neg (by simp [hkept.2]), if_pos hkept.1, hkept.1, hwDivisor, hwDivisor, hsd]
      rfl
    · congr 1
      refine if_congr ?_ rfl rfl
      omega

theorem setPllDivisor_best_sdmmc :
    ∃ s : Setting, s.Admissible ∧ IsBest (3100000 * (1 : Nat)) s.freq ∧
      (setPllDivisor .sdmmc0 0 3100000 (allOn 33)).1 = s.freq ∧
      Programs .sdmmc0 1 0x330 s (setPllDivisor .sdmmc0 0 3100000 (allOn 33)).2 := by
  refine (setPllDivisor_best_iff .sdmmc0 1 0x330 rfl (by decide) (by decide) 0 3100000 1 rfl
    (allOn 33) (by decide) ⟨⟨32, 1, 3, 32⟩, ⟨⟨?_, ?_, ?_, ?_⟩, ?_, ?_, ?_, ?_⟩, ?_⟩
    (by decide)).mpr fun h => ?_
  all_goals first | decide | exact absurd h.2.1 (by decide)

/-- The byte 32 is the field 0 with the factor 64. For a target of 3093750 Hz the new divisor is 32,
so nothing is written: the device runs at 24169 Hz. -/
theorem setPllDivisor_keeps_factor :
    (setPllDivisor .sdmmc0 0 3093750 (allOn 32)).1 = 3093750 ∧
      hwDivisor .sdmmc0 ((setPllDivisor .sdmmc0 0 3093750 (allOn 32)).2.divByte 0x330) = 4096 ∧
      ¬∃ s : Setting, s.Admissible ∧ IsBest (3093750 * (1 : Nat)) s.freq ∧
        (setPllDivisor .sdmmc0 0 3093750 (allOn 32)).1 = s.freq ∧
        Programs .sdmmc0 1 0x330 s (setPllDivisor .sdmmc0 0 3093750 (allOn 32)).2 := by
  have hdiv : hwDivisor .sdmmc0 ((setPllDivisor .sdmmc0 0 3093750 (allOn 32)).2.divByte 0x330) =
      4096 := by
    decide +kernel
  refine ⟨by decide +kernel, hdiv, ?_⟩
  rintro ⟨s, hs, -, -, hprog⟩
  have hfactor : 4096 = s.vd * 2 := hdiv.symm.trans hprog.div
  have hle := hs.vd_le
  omega

end Wm8850.Clk
