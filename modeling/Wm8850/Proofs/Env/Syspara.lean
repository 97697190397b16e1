import Wm8850.Proofs.Env.Edit
import Wm8850.Proofs.Env.Update

/-! # Where the parameter functions store bytes

`State.Loaded` says that an environment is loaded into the buffer, and that its definitions and the
NUL behind them lie in the part of the data array that goes to flash. -/

namespace Wm8850.Env

open Lib List

variable {b : Board} {s : State b} {es : List Entry}

/-- The environment is in memory and has the definitions `es`. -/
structure State.Loaded (s : State b) (es : List Entry) : Prop where
  envPtr : s.envPtr = true
  mtdInit : s.mtdInit = true
  holds : Holds (s.env.view b) es
  room : (packed es).length < b.envLen

lemma State.Loaded.buf (h : s.Loaded es) : Holds s.buf.bytes es := h.holds

lemma load_eq (hptr : s.envPtr = true) (hinit : s.mtdInit = true)
    (kmalloc : Option b.Ram) : s.load kmalloc = (s, true) := by
  simp [State.load, hptr, hinit]

/-! ### A board with SPI boot -/

def smallMtd (index : Nat) : Mtd where
  index := index
  size := 0x10000
  erasesize := 0x10000
  isbad := fun _ => false
  room := by decide
  whole := by decide
  addr32 := by decide

/-- A board with SPI flash. -/
def spiBoard : Board where
  boot := .spi
  norErase := none
  dev1 := smallMtd 0
  dev2 := smallMtd 1
  apart := by decide

def spiRam (es : List Entry) (h : (packed es).length + 2 ≤ 65531) : spiBoard.Ram where
  crc := 0
  flags := 1
  data := packed es ++ replicate (65531 - (packed es).length) 0
  len := by
    rw [length_append, length_replicate]
    show _ = 65531
    omega

/-- The board with definitions in memory. -/
def spiState (es : List Entry) (h : (packed es).length + 2 ≤ 65531) : State spiBoard where
  envPtr := true
  env := spiRam es h
  mtdInit := true
  envValid := 0
  envInvalid := 1
  nandBlock := 0
  flash := fun _ _ => none

lemma spiState_loaded (es : List Entry) (h : (packed es).length + 2 ≤ 65531) :
    (spiState es h).Loaded es where
  envPtr := rfl
  mtdInit := rfl
  holds := by
    refine ⟨replicate (65531 - (packed es).length - 1) 0, ?_, fun _ => ?_⟩
    · show packed es ++ replicate (65531 - (packed es).length) 0 = _
      rw [← replicate_succ, Nat.sub_add_cancel (by omega)]
    · rw [head?_replicate, if_neg (by omega)]
  room := by
    show _ < 65531
    omega

def smallEntry : Entry where
  name := [0x61]
  value := [0x62]
  name_eq := by decide
  name_nul := by decide
  value_nul := by decide

def smallName : CStr where
  bytes := [0x61]
  noNul := by decide

/-! ### `wmt_getsyspara` -/

lemma wmtGetsyspara_eq (hptr : s.envPtr = true) (hinit : s.mtdInit = true)
    (h : Stored (s.env.view b) es) (kmalloc : Option b.Ram) (varname : CStr) (varlen : Int) :
    wmtGetsyspara s kmalloc varname varlen =
      some (s, reply (lookup es (key varname.bytes)) varlen) := by
  unfold wmtGetsyspara
  rw [load_eq hptr hinit]
  simp [getData_eq h]

lemma State.Loaded.get (h : s.Loaded es) (kmalloc : Option b.Ram) (varname : CStr) (varlen : Int) :
    wmtGetsyspara s kmalloc varname varlen =
      some (s, reply (lookup es (key varname.bytes)) varlen) :=
  wmtGetsyspara_eq h.envPtr h.mtdInit h.holds.stored kmalloc varname varlen

lemma reply_varval (value : Option (List UInt8)) (varlen : Int) :
    (reply value varlen).varval = value.getD [] ++ [0] := by
  unfold reply
  split <;> rfl

/-- `wmt_getsyspara` stores inside a buffer of `*varlen` bytes, and refuses a value that does not
fit with its NUL, exactly when the name is not defined or its value is shorter than the buffer. -/
theorem wmtGetsyspara_writes_iff {s : State b} (hptr : s.envPtr = true) (hinit : s.mtdInit = true)
    {es : List Entry} (h : Stored (s.env.view b) es) (kmalloc : Option b.Ram) (varname : CStr)
    {varlen : Int} (hlen : 1 ≤ varlen) :
    (∀ s' r, wmtGetsyspara s kmalloc varname varlen = some (s', r) →
      (r.varval.length : Int) ≤ varlen ∧
      ∀ v, lookup es (key varname.bytes) = some v → varlen < v.length + 1 →
        r.rcode ≠ 0 ∧ r.varlen = v.length + 1) ↔
    ∀ v, lookup es (key varname.bytes) = some v → (v.length : Int) < varlen := by
  have heq := wmtGetsyspara_eq hptr hinit h kmalloc varname varlen
  constructor
  · intro hall v hv
    have hstored := (hall _ _ heq).1
    rw [reply_varval, hv] at hstored
    simp only [Option.getD_some, length_append, length_singleton] at hstored
    omega
  intro hall s' r hr
  rw [heq] at hr
  cases hr
  constructor
  · rw [reply_varval]
    cases hv : lookup es (key varname.bytes) with
    | none => simpa using hlen
    | some v =>
      have := hall v hv
      simp only [Option.getD_some, length_append, length_singleton]
      omega
  · intro v hv hlong
    have := hall v hv
    omega

theorem smallEntry_get_two :
    ∃ s' r, wmtGetsyspara (spiState [smallEntry] (by decide)) none smallName 2 = some (s', r) ∧
      (r.varval.length : Int) ≤ 2 := by
  have hloaded := spiState_loaded [smallEntry] (by decide)
  refine ⟨_, _, hloaded.get none smallName 2, ?_⟩
  refine ((wmtGetsyspara_writes_iff rfl rfl hloaded.holds.stored none smallName (by decide)).mpr
    ?_ _ _ (hloaded.get none smallName 2)).1
  intro v hv
  cases hv
  decide

/-- In a buffer of one byte they do not fit, but both are stored, and the call succeeds. -/
theorem smallEntry_get_one : wmtGetsyspara (spiState [smallEntry] (by decide)) none smallName 1
      = some (spiState [smallEntry] (by decide),
        { varval := [0x62, 0], varlen := 1, rcode := 0 }) := by
  rw [(spiState_loaded [smallEntry] (by decide)).get]
  rfl

/-! ### What `wmt_setsyspara` stores -/

/-- Every byte that `wmt_setsyspara` stores lies in the part of the data array that the checksum
covers, exactly when a definition that passes the test of the code fits into that part with both
NULs. -/
theorem setData_stores_iff {s : State b} {es : List Entry} (h : s.Loaded es) (varname : CStr)
    (varval : Option CStr) :
    (∀ buf update, setData s.buf b.envMaxSize varname varval = some (buf, update) →
      ∀ i ∈ buf.stores, i < b.envLen) ↔ ∀ v, varval = some v → v.bytes ≠ [] →
      (Defined es (key varname.bytes) → baudrateOk varname varval = some true) →
      (packed (without (key varname.bytes) es)).length + (varname.bytes.length + 2 + v.bytes.length)
        ≤ b.envMaxSize →
      (packed (without (key varname.bytes) es)).length + varname.bytes.length + v.bytes.length + 3
        ≤ b.envLen := by
  have hroom := h.room
  have hstart : s.buf.stores = [] := rfl
  rcases setData_cases h.buf b.envMaxSize varname varval with
    ⟨-, hval, heq⟩ | ⟨hdef, hbaud, heq⟩ | ⟨hdef, hbaud, heq⟩ |
    ⟨buf', hholds, hstores, hbaud, -, hcase⟩
  · -- Without a value there is nothing to do.
    refine iff_of_true ?_ ?_
    · intro buf update hset i hi
      rw [heq] at hset
      cases hset
      simp [hstart] at hi
    · intro v hv hne
      rw [hv, noValue_some hne] at hval
      exact absurd hval (by simp)
  · refine iff_of_true ?_ ?_
    · intro buf update hset
      rw [heq] at hset
      exact absurd hset (by simp)
    · intro v _ _ hok
      rw [hbaud] at hok
      exact absurd (hok hdef) (by simp)
  · refine iff_of_true ?_ ?_
    · intro buf update hset i hi
      rw [heq] at hset
      cases hset
      simp [hstart] at hi
    · intro v _ _ hok
      rw [hbaud] at hok
      exact absurd (hok hdef) (by simp)
  -- The stores of the deletion lie in front of the old closing NUL.
  have hdel : ∀ i ∈ buf'.stores, i < b.envLen := by
    intro i hi
    rcases hstores i hi with hi | hi
    · simp [hstart] at hi
    · omega
  rcases hcase with ⟨hval, -, heq⟩ | ⟨v, rfl, hne, heq⟩
  · refine iff_of_true ?_ ?_
    · intro buf update hset
      rw [heq] at hset
      cases hset
      exact hdel
    · intro v hv hne
      rw [hv, noValue_some hne] at hval
      exact absurd hval (by simp)
  by_cases hfit : (packed (without (key varname.bytes) es)).length
      + (varname.bytes.length + 2 + v.bytes.length) ≤ b.envMaxSize
  · obtain ⟨buf'', happ, hmem, -⟩ := appendEntry_eq hholds hfit
    rw [happ] at heq
    constructor
    · intro hall v' hv' _ _ _
      cases hv'
      -- The second NUL is the last byte stored.
      have hlast := hall buf'' true heq
        ((packed (without (key varname.bytes) es)).length + varname.bytes.length
          + v.bytes.length + 2) ((hmem _).mpr (.inr ⟨by omega, le_rfl⟩))
      omega
    intro hcond buf update hset i hi
    rw [heq] at hset
    cases hset
    have hend := hcond v rfl hne hbaud hfit
    rcases (hmem i).mp hi with hi | hi
    · exact hdel i hi
    · omega
  refine iff_of_true ?_ ?_
  · intro buf update hset
    rw [heq, appendEntry_overflow hholds (by omega)] at hset
    cases hset
    exact hdel
  · intro v' hv' _ _ hfit'
    cases hv'
    exact absurd hfit' hfit

def smallValue : CStr where
  bytes := [0x62]
  noNul := by decide

def longValue (n : Nat) : CStr where
  bytes := replicate n 0x78
  noNul := fun h => absurd (eq_of_mem_replicate h) (by decide)

theorem smallValue_stores :
    ∃ buf, setData (spiState [] (by decide)).buf spiBoard.envMaxSize smallName (some smallValue)
        = some (buf, true) ∧ ∀ i ∈ buf.stores, i < spiBoard.envLen := by
  have hloaded := spiState_loaded [] (by decide)
  have hno : ¬Defined [] (key smallName.bytes) := by simp [Defined]
  have hfit : (packed []).length + (smallName.bytes.length + 2 + smallValue.bytes.length)
      ≤ spiBoard.envMaxSize := by decide
  obtain ⟨buf, happ, -⟩ := appendEntry_eq hloaded.buf hfit
  have hset : setData (spiState [] (by decide)).buf spiBoard.envMaxSize smallName
      (some smallValue) = some (buf, true) := by
    rw [setData_undefined hloaded.buf.stored hno]
    exact happ
  refine ⟨buf, hset, (setData_stores_iff hloaded smallName (some smallValue)).mpr ?_ buf true hset⟩
  intro v hv _ _ _
  cases hv
  decide

/-- A value of 65533 bytes passes the test, and its second NUL is stored five bytes behind the
data array. -/
theorem longValue_stores :
    ∃ buf, setData (spiState [] (by decide)).buf spiBoard.envMaxSize smallName
        (some (longValue 65533)) = some (buf, true) ∧
      65536 ∈ buf.stores ∧ spiBoard.envLen = 65531 ∧ spiBoard.dataLen = 65531 := by
  have hloaded := spiState_loaded [] (by decide)
  have hno : ¬Defined [] (key smallName.bytes) := by simp [Defined]
  have hlen : (longValue 65533).bytes.length = 65533 := length_replicate
  have heq := setData_undefined hloaded.buf.stored hno spiBoard.envMaxSize (some (longValue 65533))
  have hfit : (packed []).length + (smallName.bytes.length + 2 + (longValue 65533).bytes.length)
      ≤ spiBoard.envMaxSize := by
    rw [hlen]
    decide
  obtain ⟨buf, happ, hmem, -⟩ := appendEntry_eq hloaded.buf hfit
  refine ⟨buf, ?_, (hmem 65536).mpr (.inr ?_), rfl, rfl⟩
  · rw [heq, noValue_some (ne_nil_of_length_pos (by omega))]
    simp only [Bool.false_eq_true, if_false]
    exact happ
  · rw [hlen]
    decide

end Wm8850.Env
