import Wm8850.Hdmi.Ddc
import Mathlib.Logic.Function.Iterate

/-! # What a read that returns 0 has stored

A call ends with its first attempt that returns 0. An attempt also returns 0 when a byte after the
first does not come in time; this is only counted, in `dbg_hdmi_ddc_read_err`. `Gives` says which
bytes the controller gave in an attempt, `Withholds` that it kept one back. -/

namespace Wm8850.Hdmi

section
variable {σ : Type} (c : Controller σ)

/-- The controller after the register was read `k` times. -/
def afterReads (k : Nat) (s : σ) : σ := (fun s => (c.inl s).2)^[k] s

/-- The bit for a byte is not set in any of the reads that the driver waits for. -/
def NeverShown (s : σ) : Prop := ∀ k < maxloop, (c.inl (afterReads c k s)).1 &&& statusSwRead = 0#32

/-- The controller took a request for each byte, showed that the byte was there, and these are the
bytes that the register held then. -/
inductive Delivered : σ → List (BitVec 8) → σ → Prop where
  | nil (s : σ) : Delivered s [] s
  | cons {s acked avail s' : σ} {bytes : List (BitVec 8)}
      (hack : hdmiDdcCheckStatus c statusWrAvail true (c.outl s 0x40000#32) = (true, acked))
      (havail : hdmiDdcCheckStatus c statusSwRead false acked = (true, avail))
      (hrest : Delivered (c.outl (c.inl avail).2 0x2000000#32) bytes s') :
      Delivered s (rdData (c.inl avail).1 :: bytes) s'

/-- In an attempt from `s` the controller takes the requests for the start and then gives
`bytes`. -/
def Gives (index : Int) (s : σ) (bytes : List (BitVec 8)) (s' : σ) : Prop :=
  (startRead c index s).1 = true ∧ Delivered c (startRead c index s).2 bytes s'

/-- The controller gives some bytes, takes the request for another one and does not show it. -/
def Withholds (index : Int) (length : Nat) (s : σ) : Prop :=
  ∃ bytes s' acked, Gives c index s bytes s' ∧ 0 < bytes.length ∧ bytes.length < length ∧
    hdmiDdcCheckStatus c statusWrAvail true (c.outl s' 0x40000#32) = (true, acked) ∧
    NeverShown c acked

/-- The controller gives all bytes. -/
def GivesAll (index : Int) (length : Nat) (s : σ) : Prop :=
  ∃ bytes s', Gives c index s bytes s' ∧ bytes.length = length

/-- The controller gives all bytes and takes the request for the stop. -/
def Completes (index : Int) (length : Nat) (s : σ) : Prop :=
  ∃ bytes s', Gives c index s bytes s' ∧ bytes.length = length ∧
    (requests c [stopRequest c] s').1 = true

/-- The state in which an attempt of a call starts. -/
def beforeAttempt (index : Int) (length : Nat) (s : σ) : Nat → σ
  | 0 => s
  | n + 1 => c.reset (hdmiDdcReadFunc c index length (beforeAttempt index length s n)).state

/-- The call comes to the attempt: no attempt before it came to an end or broke off at a byte after
the first. -/
def Made (index : Int) (length : Nat) (s : σ) (attempt : Nat) : Prop :=
  ∀ n < attempt, ¬Completes c index length (beforeAttempt c index length s n) ∧
    ¬Withholds c index length (beforeAttempt c index length s n)

/-- Every byte of the buffer is one that the controller gave in an attempt of the call. -/
def AllRead (index : Int) (length : Nat) (s : σ) (buf : Nat → BitVec 8) : Prop :=
  ∀ i < length, ∃ attempt < 3, Made c index length s attempt ∧
    ∃ bytes s', Gives c index (beforeAttempt c index length s attempt) bytes s' ∧
      bytes[i]? = some (buf i)

end

section Loop
variable {σ : Type} {c : Controller σ} {n i : Nat} {s s' : σ} {bytes : List (BitVec 8)}

lemma pollStatus_eq_false_iff : (pollStatus c statusSwRead false n s).1 = false ↔
    ∀ k < n, (c.inl (afterReads c k s)).1 &&& statusSwRead = 0#32 := by
  induction n generalizing s with
  | zero => simp [pollStatus]
  | succ n ih =>
    rw [pollStatus, Nat.forall_lt_succ_left]
    by_cases hzero : (c.inl s).1 &&& statusSwRead = 0#32
    · simpa [hzero, afterReads] using ih
    · simp [hzero, afterReads]

lemma checkStatus_eq_false_iff :
    (hdmiDdcCheckStatus c statusSwRead false s).1 = false ↔ NeverShown c s := by
  rw [NeverShown, ← pollStatus_eq_false_iff, hdmiDdcCheckStatus]
  simp

/-- The next byte that the loop waits for is not shown. -/
def Stuck (c : Controller σ) (s : σ) : Prop :=
  ∃ acked, hdmiDdcCheckStatus c statusWrAvail true (c.outl s 0x40000#32) = (true, acked) ∧
    NeverShown c acked

/-- The loop stores what the controller gives. It ends with all bytes, with a request that is not
taken or a first byte that is not shown, or with a later byte that is not shown. -/
lemma readLoop_spec (n i : Nat) (s : σ) : ∃ s', Delivered c s (readLoop c n i s).2.1 s' ∧
    (readLoop c n i s).2.1.length ≤ n ∧
    ((readLoop c n i s).1 = .done →
      (readLoop c n i s).2.1.length = n ∧ (readLoop c n i s).2.2 = s') ∧
    ((readLoop c n i s).1 ≠ .done → (readLoop c n i s).2.1.length < n) ∧
    ((readLoop c n i s).1 = .readErr ↔
      0 < i + (readLoop c n i s).2.1.length ∧ (readLoop c n i s).2.1.length < n ∧ Stuck c s') := by
  induction n generalizing i s with
  | zero => exact ⟨s, .nil s, by simp [readLoop]⟩
  | succ n ih =>
    rw [readLoop]
    generalize hack : hdmiDdcCheckStatus c statusWrAvail true (c.outl s 0x40000#32) = ack
    obtain ⟨taken, acked⟩ := ack
    cases taken with
    | false => exact ⟨s, .nil s, by simp [Stuck, hack]⟩
    | true =>
      generalize havail : hdmiDdcCheckStatus c statusSwRead false acked = shown
      obtain ⟨set, avail⟩ := shown
      cases set with
      | false =>
        have hnever : NeverShown c acked := checkStatus_eq_false_iff.mp (by rw [havail])
        have hstuck : Stuck c s := ⟨acked, hack, hnever⟩
        by_cases hi : i = 0
        · exact ⟨s, .nil s, by simp [hi]⟩
        · exact ⟨s, .nil s, by simp [hi, hstuck]; omega⟩
      | true =>
        obtain ⟨s', hdel, hle, hdone, hnot, herr⟩ :=
          ih (i + 1) (c.outl (c.inl avail).2 0x2000000#32)
        refine ⟨s', .cons hack havail hdel, ?_⟩
        simp only [Bool.true_eq_false, if_false, List.length_cons]
        refine ⟨by omega, fun h => ⟨by rw [(hdone h).1], (hdone h).2⟩,
          fun h => Nat.succ_lt_succ (hnot h), ?_⟩
        rw [herr, Nat.add_lt_add_iff_right,
          show i + 1 + _ = i + (_ + 1) from Nat.add_right_comm i 1 _]

/-- The loop does not stop before the controller does. -/
lemma Delivered.lt_stored (h : Delivered c s bytes s') {j : Nat} (hj : j < bytes.length)
    (hn : j < n) :
    j < (readLoop c n i s).2.1.length := by
  induction h generalizing n i j with
  | nil s => exact absurd hj (Nat.not_lt_zero j)
  | cons hack havail _ ih =>
    obtain ⟨n, rfl⟩ : ∃ m, n = m + 1 := ⟨n - 1, by omega⟩
    simp only [readLoop, hack, havail, Bool.true_eq_false, if_false, List.length_cons]
    cases j with
    | zero => exact Nat.succ_pos _
    | succ j => exact Nat.succ_lt_succ (ih (Nat.lt_of_succ_lt_succ hj) (Nat.lt_of_succ_lt_succ hn))

lemma Delivered.readLoop_eq (h : Delivered c s bytes s') :
    readLoop c bytes.length i s = (.done, bytes, s') := by
  induction h generalizing i with
  | nil s => rfl
  | cons hack havail _ ih => simp [readLoop, hack, havail, ih]

lemma Delivered.readLoop_stuck (h : Delivered c s bytes s') (hstuck : Stuck c s')
    (hlt : bytes.length < n) (hpos : 0 < i + bytes.length) : (readLoop c n i s).1 = .readErr := by
  induction h generalizing n i with
  | nil s =>
    obtain ⟨acked, hack, hnever⟩ := hstuck
    obtain ⟨n, rfl⟩ : ∃ m, n = m + 1 := ⟨n - 1, by omega⟩
    have hi : i ≠ 0 := Nat.pos_iff_ne_zero.mp hpos
    simp [readLoop, hack, checkStatus_eq_false_iff.mpr hnever, hi]
  | cons hack havail _ ih =>
    obtain ⟨n, rfl⟩ : ∃ m, n = m + 1 := ⟨n - 1, by omega⟩
    simp only [readLoop, hack, havail, Bool.true_eq_false, if_false]
    exact ih hstuck (Nat.lt_of_succ_lt_succ hlt) (by omega)

end Loop

section Attempts
variable {σ : Type} {c : Controller σ} {index : Int} {length : Nat} {s s' : σ}
  {bytes : List (BitVec 8)}

lemma hdmiDdcReadFunc_of_started (length : Nat) (hstarted : (startRead c index s).1 = true) :
    (hdmiDdcReadFunc c index length s).stored = (readLoop c length 0 (startRead c index s).2).2.1 ∧
    (hdmiDdcReadFunc c index length s).exit =
      if (readLoop c length 0 (startRead c index s).2).1 ≠ .done then
        (readLoop c length 0 (startRead c index s).2).1
      else if (requests c [stopRequest c] (readLoop c length 0 (startRead c index s).2).2.2).1 then
        .done
      else .err := by
  rw [hdmiDdcReadFunc, if_neg (by rw [hstarted]; decide)]
  by_cases hloop : (readLoop c length 0 (startRead c index s).2).1 = .done <;> simp [hloop]

lemma hdmiDdcReadFunc_of_not_started (hnot : ¬(startRead c index s).1 = true) :
    (hdmiDdcReadFunc c index length s).stored = [] ∧
      (hdmiDdcReadFunc c index length s).exit = .err := by
  rw [hdmiDdcReadFunc, if_pos (Bool.eq_false_of_not_eq_true hnot)]
  exact ⟨rfl, rfl⟩

/-- An attempt has no error in `err_cnt` and all bytes if the controller completes it. -/
lemma exit_done_iff :
    (hdmiDdcReadFunc c index length s).exit = .done ↔ Completes c index length s := by
  by_cases hstarted : (startRead c index s).1 = true
  · obtain ⟨-, hexit⟩ := hdmiDdcReadFunc_of_started length hstarted
    obtain ⟨s', hdel, -, hdone, -⟩ := readLoop_spec (c := c) length 0 (startRead c index s).2
    rw [hexit]
    constructor
    · intro h
      split at h
      · exact absurd h ‹_›
      rename_i hloop
      obtain ⟨hlen, hstate⟩ := hdone (not_not.mp hloop)
      rw [hstate] at h
      refine ⟨_, s', ⟨hstarted, hdel⟩, hlen, ?_⟩
      by_contra hstop
      rw [if_neg hstop] at h
      cases h
    · rintro ⟨bytes, s₁, ⟨-, hdel₁⟩, rfl, hstop⟩
      simp [hdel₁.readLoop_eq, hstop]
  · rw [(hdmiDdcReadFunc_of_not_started hstarted).2]
    exact ⟨fun h => absurd h (by decide), fun ⟨_, _, hgives, _⟩ => absurd hgives.1 hstarted⟩

lemma exit_readErr_iff :
    (hdmiDdcReadFunc c index length s).exit = .readErr ↔ Withholds c index length s := by
  by_cases hstarted : (startRead c index s).1 = true
  · obtain ⟨-, hexit⟩ := hdmiDdcReadFunc_of_started length hstarted
    obtain ⟨s', hdel, -, -, -, herr⟩ := readLoop_spec (c := c) length 0 (startRead c index s).2
    rw [hexit]
    constructor
    · intro h
      split at h
      · obtain ⟨hpos, hlt, acked, hack, hnever⟩ := herr.mp h
        exact ⟨_, s', acked, ⟨hstarted, hdel⟩, by omega, hlt, hack, hnever⟩
      · split at h <;> cases h
    · rintro ⟨bytes, s₁, acked, ⟨-, hdel₁⟩, hpos, hlt, hack, hnever⟩
      simp [hdel₁.readLoop_stuck ⟨acked, hack, hnever⟩ hlt (i := 0) (by omega)]
  · rw [(hdmiDdcReadFunc_of_not_started hstarted).2]
    exact ⟨fun h => absurd h (by decide), fun ⟨_, _, _, hgives, _⟩ => absurd hgives.1 hstarted⟩

lemma Attempt.ret_eq_zero_iff (a : Attempt σ) : a.ret = 0 ↔ a.exit = .done ∨ a.exit = .readErr := by
  cases hexit : a.exit <;> simp [Attempt.ret, hexit]

/-- A byte is stored in an attempt if and only if the controller gives it. -/
lemma lt_stored_iff {i : Nat} (hi : i < length) :
    i < (hdmiDdcReadFunc c index length s).stored.length ↔
      ∃ bytes s', Gives c index s bytes s' ∧ i < bytes.length := by
  by_cases hstarted : (startRead c index s).1 = true
  · obtain ⟨hstored, -⟩ := hdmiDdcReadFunc_of_started length hstarted
    obtain ⟨s', hdel, -⟩ := readLoop_spec (c := c) length 0 (startRead c index s).2
    rw [hstored]
    exact ⟨fun h => ⟨_, s', ⟨hstarted, hdel⟩, h⟩, fun ⟨_, _, hgives, h⟩ => hgives.2.lt_stored h hi⟩
  · rw [(hdmiDdcReadFunc_of_not_started hstarted).1]
    exact ⟨fun h => absurd h (Nat.not_lt_zero i), fun ⟨_, _, hgives, _⟩ => absurd hgives.1 hstarted⟩

lemma gives_stored (h : (hdmiDdcReadFunc c index length s).stored ≠ []) :
    (hdmiDdcReadFunc c index length s).stored.length ≤ length ∧
      ∃ s', Gives c index s (hdmiDdcReadFunc c index length s).stored s' := by
  by_cases hstarted : (startRead c index s).1 = true
  · obtain ⟨hstored, -⟩ := hdmiDdcReadFunc_of_started length hstarted
    obtain ⟨s', hdel, hle, -⟩ := readLoop_spec (c := c) length 0 (startRead c index s).2
    rw [hstored]
    exact ⟨hle, s', hstarted, hdel⟩
  · exact absurd (hdmiDdcReadFunc_of_not_started hstarted).1 h

lemma Withholds.stored_lt (h : Withholds c index length s) :
    (hdmiDdcReadFunc c index length s).stored.length < length := by
  obtain ⟨bytes, s₁, acked, ⟨hstarted, hdel₁⟩, hpos, hlt, hack, hnever⟩ := h
  obtain ⟨-, -, -, -, hnot, -⟩ := readLoop_spec (c := c) length 0 (startRead c index s).2
  rw [(hdmiDdcReadFunc_of_started length hstarted).1]
  refine hnot ?_
  rw [hdel₁.readLoop_stuck ⟨acked, hack, hnever⟩ hlt (by omega)]
  decide

lemma Completes.not_withholds (h : Completes c index length s) : ¬Withholds c index length s := by
  intro hwith
  have hexit := exit_readErr_iff.mpr hwith
  rw [exit_done_iff.mpr h] at hexit
  cases hexit

end Attempts

section Calls
variable {σ : Type} {c : Controller σ} {index : Int} {length : Nat} {s : σ}

/-- The call ends with the attempt: it is made and returns 0. -/
def Ends (c : Controller σ) (index : Int) (length : Nat) (s : σ) (attempt : Nat) : Prop :=
  Made c index length s attempt ∧
    (Completes c index length (beforeAttempt c index length s attempt) ∨
      Withholds c index length (beforeAttempt c index length s attempt))

lemma Ends.unique {m n : Nat} (hm : Ends c index length s m) (hn : Ends c index length s n) :
    m = n := by
  have hnot : ∀ {m n}, Ends c index length s m → Made c index length s n → ¬m < n := by
    intro m n hm hn hlt
    exact hm.2.elim (hn m hlt).1 (hn m hlt).2
  have hmn := hnot hm hn.1
  have hnm := hnot hn hm.1
  omega

lemma beforeAttempt_reset (n : Nat) :
    beforeAttempt c index length (c.reset (hdmiDdcReadFunc c index length s).state) n =
      beforeAttempt c index length s (n + 1) := by
  induction n with
  | zero => rfl
  | succ n ih =>
    rw [beforeAttempt, ih]
    rfl

lemma ends_succ_iff (hnot : (hdmiDdcReadFunc c index length s).ret ≠ 0) {n : Nat} :
    Ends c index length s (n + 1) ↔
      Ends c index length (c.reset (hdmiDdcReadFunc c index length s).state) n := by
  rw [Ne, Attempt.ret_eq_zero_iff, exit_done_iff, exit_readErr_iff, not_or] at hnot
  have hmade : Made c index length s (n + 1) ↔
      Made c index length (c.reset (hdmiDdcReadFunc c index length s).state) n := by
    rw [Made, Nat.forall_lt_succ_left, Made]
    simp only [beforeAttempt_reset]
    exact ⟨fun h => h.2, fun h => ⟨hnot, h⟩⟩
  rw [Ends, Ends, hmade, beforeAttempt_reset]

/-- The bytes that an attempt of the call stores. -/
def storedBy (c : Controller σ) (index : Int) (length : Nat) (s : σ) (n : Nat) : List (BitVec 8) :=
  (hdmiDdcReadFunc c index length (beforeAttempt c index length s n)).stored

lemma store_cases (buf : Nat → BitVec 8) (bytes : List (BitVec 8)) (i : Nat) :
    bytes[i]? = some (store buf bytes i) ∨ bytes.length ≤ i ∧ store buf bytes i = buf i := by
  by_cases hi : i < bytes.length
  · exact .inl (by simp [store, hi])
  · exact .inr ⟨by omega, by simp [store, Nat.not_lt.mp hi]⟩

/-- The call returns 0 if and only if one of its attempts ends it. Each byte of the buffer is then
one that an attempt stored, or the old one if none did. -/
lemma retryLoop_cases (c : Controller σ) (index : Int) (length retry : Nat) (buf : Nat → BitVec 8)
    (vpp : Vpp) (s : σ) :
    ((retryLoop c index length retry buf vpp s).ret ≠ 0 ∧
      ∀ n < retry, ¬Ends c index length s n) ∨
    ∃ last < retry, Ends c index length s last ∧
      (retryLoop c index length retry buf vpp s).ret = 0 ∧
      ∀ i, (∃ n ≤ last, (storedBy c index length s n)[i]? =
          some ((retryLoop c index length retry buf vpp s).buf i)) ∨
        (∀ n ≤ last, (storedBy c index length s n).length ≤ i) ∧
          (retryLoop c index length retry buf vpp s).buf i = buf i := by
  induction retry generalizing buf vpp s with
  | zero => exact .inl ⟨by simp [retryLoop], fun n hn => absurd hn (Nat.not_lt_zero n)⟩
  | succ retry ih =>
    rw [retryLoop]
    by_cases hret : (hdmiDdcReadFunc c index length s).ret = 0
    · rw [if_pos hret]
      have hends : Ends c index length s 0 := by
        rw [Attempt.ret_eq_zero_iff, exit_done_iff, exit_readErr_iff] at hret
        exact ⟨fun n hn => absurd hn (Nat.not_lt_zero n), hret⟩
      refine .inr ⟨0, Nat.succ_pos retry, hends, rfl, fun i => ?_⟩
      obtain hnew | ⟨hle, hold⟩ := store_cases buf (hdmiDdcReadFunc c index length s).stored i
      · exact .inl ⟨0, le_rfl, hnew⟩
      · refine .inr ⟨fun n hn => ?_, hold⟩
        rw [Nat.le_zero.mp hn]
        exact hle
    rw [if_neg hret]
    have hshift : ∀ n,
        storedBy c index length (c.reset (hdmiDdcReadFunc c index length s).state) n =
        storedBy c index length s (n + 1) := by
      intro n
      rw [storedBy, beforeAttempt_reset, storedBy]
    have hzero : ¬Ends c index length s 0 := by
      rintro ⟨-, hor⟩
      rw [beforeAttempt, ← exit_done_iff, ← exit_readErr_iff, ← Attempt.ret_eq_zero_iff] at hor
      exact hret hor
    obtain ⟨hne, hnone⟩ | ⟨last, hlast, hends, hzero', hbytes⟩ :=
      ih (store buf (hdmiDdcReadFunc c index length s).stored)
        ((hdmiDdcReadFunc c index length s).vpp vpp)
          (c.reset (hdmiDdcReadFunc c index length s).state)
    · refine .inl ⟨hne, fun n hn => ?_⟩
      cases n with
      | zero => exact hzero
      | succ n => exact fun h => hnone n (by omega) ((ends_succ_iff hret).mp h)
    refine .inr ⟨last + 1, by omega, (ends_succ_iff hret).mpr hends, hzero', fun i => ?_⟩
    obtain ⟨n, hn, hnew⟩ | ⟨hle, hold⟩ := hbytes i
    · exact .inl ⟨n + 1, by omega, by rw [← hshift, hnew]⟩
    -- no later attempt stored the byte, so it is the first one's or the old one
    rw [hold]
    obtain hnew | ⟨hle', hold'⟩ := store_cases buf (hdmiDdcReadFunc c index length s).stored i
    · exact .inl ⟨0, Nat.zero_le _, hnew⟩
    · refine .inr ⟨fun n hn => ?_, hold'⟩
      cases n with
      | zero => exact hle'
      | succ n =>
        rw [← hshift]
        exact hle n (by omega)

/-- After a call that ends with attempt `last` the buffer is all read if and only if each byte was
stored in some attempt. -/
lemma allRead_iff {buf' : Nat → BitVec 8} {last : Nat} (hlt : last < 3)
    (hends : Ends c index length s last)
    (hbytes : ∀ i, (∃ n ≤ last, (storedBy c index length s n)[i]? = some (buf' i)) ∨
      ∀ n ≤ last, (storedBy c index length s n).length ≤ i) :
    AllRead c index length s buf' ↔
      ∀ i < length, ∃ n ≤ last, i < (storedBy c index length s n).length := by
  constructor
  · intro hall i hi
    obtain ⟨n, -, hmade, bytes, s', hgives, hbyte⟩ := hall i hi
    refine ⟨n, ?_, (lt_stored_iff hi).mpr
      ⟨bytes, s', hgives, (List.getElem?_eq_some_iff.mp hbyte).1⟩⟩
    by_contra hgt
    exact hends.2.elim (hmade last (by omega)).1 (hmade last (by omega)).2
  · intro hall i hi
    obtain ⟨n, hn, hbyte⟩ | hnone := hbytes i
    · have hne : storedBy c index length s n ≠ [] := by
        intro hnil
        rw [hnil] at hbyte
        cases hbyte
      obtain ⟨-, s', hgives⟩ := gives_stored hne
      exact ⟨n, by omega, fun m hm => hends.1 m (by omega), _, s', hgives, hbyte⟩
    · obtain ⟨n, hn, hlt'⟩ := hall i hi
      exact absurd (hnone n hn) (by omega)

/-- A call that returns 0 has read all the bytes from the device into the buffer if and only if the
controller does not withhold a byte after the first one in the attempt that ends the call, or has
given all bytes in an attempt before. -/
theorem hdmiDdcRead_allRead_iff (c : Controller σ) (index : Int) (buf : Nat → BitVec 8)
    (length : Nat) (vpp : Vpp) (s : σ) :
    ((hdmiDdcRead c index buf length vpp s).ret = 0 →
      AllRead c index length s (hdmiDdcRead c index buf length vpp s).buf) ↔
    ∀ attempt < 3, Made c index length s attempt →
      Withholds c index length (beforeAttempt c index length s attempt) →
      ∃ earlier < attempt, GivesAll c index length (beforeAttempt c index length s earlier) := by
  rw [hdmiDdcRead]
  obtain ⟨hne, hnone⟩ | ⟨last, hlast, hends, hzero, hbytes⟩ :=
    retryLoop_cases c index length 3 buf vpp s
  · exact ⟨fun _ n hn hmade hwith => absurd ⟨hmade, .inr hwith⟩ (hnone n hn),
      fun _ hzero => absurd hzero hne⟩
  have hread := allRead_iff hlast hends fun i => (hbytes i).imp id And.left
  -- an attempt that gives all bytes stores them
  have hfull : ∀ n, GivesAll c index length (beforeAttempt c index length s n) →
      ∀ i < length, i < (storedBy c index length s n).length := by
    rintro n ⟨bytes, s', hgives, hlen⟩ i hi
    exact (lt_stored_iff hi).mpr ⟨bytes, s', hgives, by omega⟩
  constructor
  · intro hprop n hn hmade hwith
    obtain rfl : n = last := Ends.unique ⟨hmade, .inr hwith⟩ hends
    have hpos : 0 < length := Nat.lt_of_le_of_lt (Nat.zero_le _) hwith.stored_lt
    obtain ⟨m, hm, hlt⟩ := hread.mp (hprop hzero) (length - 1) (by omega)
    have hne : m ≠ n := by
      rintro rfl
      have hstored : (storedBy c index length s m).length < length := hwith.stored_lt
      omega
    obtain ⟨hle, s', hgives⟩ := gives_stored (List.ne_nil_of_length_pos (Nat.zero_lt_of_lt hlt))
    have hlen : (storedBy c index length s m).length ≤ length := hle
    exact ⟨m, by omega, _, s', hgives, show (storedBy c index length s m).length = length by omega⟩
  · intro hcond _
    rw [hread]
    intro i hi
    obtain ⟨bytes, s', hgives, hlen, -⟩ | hwith := hends.2
    · exact ⟨last, le_rfl, hfull last ⟨bytes, s', hgives, hlen⟩ i hi⟩
    · obtain ⟨m, hm, hall⟩ := hcond last hlast hends.1 hwith
      exact ⟨m, by omega, hfull m hall i hi⟩

end Calls

section Silent

/-- A controller that has `bytes` bytes, each of them 0, and is silent when they are read. The state
is the number of bytes that were taken. -/
def silentAfter (bytes : Nat) : Controller Nat where
  inl s := (if s < bytes then statusSwRead else 0#32, s)
  outl s val := if val = 0x2000000#32 then s + 1 else s
  setFreq := id
  reset := id

theorem hdmiDdcRead_allRead_three :
    (hdmiDdcRead (silentAfter 3) 0 (fun _ => 0xFF#8) 3 ⟨0, 0⟩ 0).ret = 0 ∧
    AllRead (silentAfter 3) 0 3 0 (hdmiDdcRead (silentAfter 3) 0 (fun _ => 0xFF#8) 3 ⟨0, 0⟩
      0).buf := by
  have hret : (hdmiDdcRead (silentAfter 3) 0 (fun _ => 0xFF#8) 3 ⟨0, 0⟩ 0).ret = 0 := by
    decide +kernel
  refine ⟨hret, (hdmiDdcRead_allRead_iff (silentAfter 3) 0 _ 3 ⟨0, 0⟩ 0).mpr ?_ hret⟩
  -- the first attempt completes the call
  have hdone : Completes (silentAfter 3) 0 3 0 := exit_done_iff.mp (by decide +kernel)
  intro n hn hmade hwith
  obtain rfl | hpos := Nat.eq_zero_or_pos n
  · exact absurd hwith hdone.not_withholds
  · exact absurd hdone (hmade 0 hpos).1

/-- A read of two bytes from a controller that has one returns 0, and the second byte was not
read. -/
theorem hdmiDdcRead_not_allRead :
    (hdmiDdcRead (silentAfter 1) 0 (fun _ => 0xFF#8) 2 ⟨0, 0⟩ 0).ret = 0 ∧
    ¬AllRead (silentAfter 1) 0 2 0
      (hdmiDdcRead (silentAfter 1) 0 (fun _ => 0xFF#8) 2 ⟨0, 0⟩ 0).buf := by
  refine ⟨by decide +kernel, fun hall => ?_⟩
  obtain ⟨n, hn, -, bytes, s', hgives, hbyte⟩ := hall 1 (by decide)
  -- no attempt stores the second byte
  have hnone : ∀ n < 3, ¬1 < (hdmiDdcReadFunc (silentAfter 1) 0 2
      (beforeAttempt (silentAfter 1) 0 2 0 n)).stored.length := by decide +kernel
  exact hnone n hn ((lt_stored_iff (by decide)).mpr
    ⟨bytes, s', hgives, (List.getElem?_eq_some_iff.mp hbyte).1⟩)

end Silent

end Wm8850.Hdmi
