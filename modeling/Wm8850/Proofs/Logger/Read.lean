import Wm8850.Proofs.Logger.Write

/-! # What a read copies

`do_read_log_to_user` makes up to four copies, and `sourceIndex` is the byte of the entry that
belongs at a place. It is enough that each copy puts the right bytes at its places (`copies_spec`).
If the end of the buffer falls in the payload, the copy of its second part goes four bytes too far,
and four places in front of it are not written (`readCopies_gap`). -/

namespace Wm8850.Logger

open Lib List

/-- The byte of an entry of the length `len` that belongs at the place `p` of the user's buffer: the
payload moves up by the four bytes of `thread_msec`, and these come last. -/
def sourceIndex (len p : Nat) : Nat :=
  if p < threadOffset then p
  else if p < len - threadtimeSize then p + threadtimeSize
  else p + entrySize - len

/-- What the user's buffer should hold after a read, with or without `thread_msec`. -/
def rearranged (log : Log) (rOff : Nat) (fReadAttach : Bool) (mem : Bytes) : Bytes := fun p =>
  let len := getEntryLen log rOff
  if p < len - threadtimeSize ∨ fReadAttach = true ∧ p < len then
    log.buffer (loggerOffset log (rOff + sourceIndex len p))
  else mem p

/-- The copy writes the place `p` of the user's buffer. -/
def UserCopy.Covers (c : UserCopy) (p : Nat) : Prop := c.dst ≤ p ∧ p < c.dst + c.n

variable {cs : List UserCopy}

/-- If all copies that write a place take the same byte for it, that byte is there in the end. -/
lemma copies_spec (buffer mem : Bytes) {p a : Nat}
    (hagree : ∀ c ∈ cs, c.Covers p → c.src + (p - c.dst) = a) :
    ((∃ c ∈ cs, c.Covers p) → cs.foldl (copyToUser buffer) mem p = buffer a) ∧
      ((∀ c ∈ cs, ¬ c.Covers p) → cs.foldl (copyToUser buffer) mem p = mem p) := by
  induction cs generalizing mem with
  | nil =>
    constructor
    · rintro ⟨c, hc, -⟩
      cases hc
    · intro _
      rfl
  | cons c cs ih =>
    obtain ⟨ihcover, ihrest⟩ :=
      ih (copyToUser buffer mem c) (fun d hd => hagree d (mem_cons_of_mem c hd))
    rw [foldl_cons]
    constructor
    · rintro ⟨d, hd, hcover⟩
      -- The byte is from the last copy that covers the place, which is `c` or a later one.
      by_cases hlater : ∃ d ∈ cs, d.Covers p
      · exact ihcover hlater
      rw [ihrest fun d hd hcover => hlater ⟨d, hd, hcover⟩]
      rcases mem_cons.mp hd with rfl | hd
      · exact (if_pos hcover).trans (congrArg buffer (hagree d mem_cons_self hcover))
      · exact absurd ⟨d, hd, hcover⟩ hlater
    · intro hnone
      rw [ihrest fun d hd => hnone d (mem_cons_of_mem c hd)]
      exact if_neg (hnone c mem_cons_self)

/-- Copies that all succeed are made one after the other. -/
lemma copiesToUser_of_ok {buffer mem : Bytes} {answers : List (Option Nat)}
    (h : (copiesToUser buffer cs answers mem).1 = true) :
    copiesToUser buffer cs answers mem = (true, cs.foldl (copyToUser buffer) mem) := by
  induction cs generalizing answers mem with
  | nil =>
    rfl
  | cons c cs ih =>
    match answers, h with
    | [], h => exact ih h
    | none :: answers, h => exact ih h

section
variable {size rOff len p a : Nat} {fReadAttach : Bool}

/-- The end of the buffer falls into the header or behind the entry, not into the payload. -/
def InOnePiece (size rOff len : Nat) : Prop := rOff + len ≤ size ∨ size - rOff ≤ entrySize

instance : Decidable (InOnePiece size rOff len) := inferInstanceAs (Decidable (_ ∨ _))

/-- The address of the byte that belongs at a place, before or behind the end of the buffer: a byte
of the header, of the payload, or of `thread_msec`. -/
theorem address_eq (hoff : rOff < size) (hlen : 24 ≤ len) (hfits : len ≤ size) (ha : a < size)
    (h : p < 20 ∧ (a = rOff + p ∨ a + size = rOff + p) ∨
      20 ≤ p ∧ p < len - 4 ∧ (a = rOff + p + 4 ∨ a + size = rOff + p + 4) ∨
      len - 4 ≤ p ∧ p < len ∧ (a + len = rOff + p + 24 ∨ a + size + len = rOff + p + 24)) :
    a = (rOff + sourceIndex len p) % size := by
  unfold sourceIndex threadOffset threadtimeSize entrySize
  split
  · rw [ring_index hoff (by omega)]
    split <;> omega
  split
  all_goals
    rw [ring_index hoff (by omega)]
    split <;> omega

/-- Every copy takes the byte that belongs at its place: all of them if the payload is in one piece,
and those into the header in any case. -/
lemma readCopies_agree (fReadAttach : Bool) (hoff : rOff < size) (hlen : entrySize ≤ len)
    (hfits : len ≤ size) (hplace : InOnePiece size rOff len ∨ p < threadOffset) :
    ∀ c ∈ readCopies size rOff len fReadAttach, c.Covers p →
      c.src + (p - c.dst) = (rOff + sourceIndex len p) % size := by
  intro c hc hcover
  unfold readCopies threadOffset threadtimeSize at hc
  unfold UserCopy.Covers at hcover
  unfold InOnePiece threadOffset entrySize at hplace
  unfold entrySize at hlen
  dsimp only at hc
  -- In every case the copies are those of the header, then of the payload, then of `thread_msec`.
  -- In the last one the copy that goes too far is not made, or it is behind the header.
  split at hc
  · simp only [mem_append, mem_cons, mem_ite_nil_right, not_mem_nil, or_false] at hc
    rcases hc with (rfl | rfl | rfl) | ⟨-, rfl⟩ <;> dsimp only at hcover ⊢ <;>
      exact address_eq hoff hlen hfits (by omega) (by omega)
  split at hc
  · simp only [mem_append, mem_cons, mem_ite_nil_right, not_mem_nil, or_false] at hc
    rcases hc with (rfl | rfl) | ⟨-, rfl⟩ <;> dsimp only at hcover ⊢ <;>
      exact address_eq hoff hlen hfits (by omega) (by omega)
  split at hc
  · simp only [mem_append, mem_cons, mem_ite_nil_right, not_mem_nil, or_false] at hc
    rcases hc with (rfl | rfl) | ⟨-, rfl | ⟨-, rfl⟩⟩ <;> dsimp only at hcover ⊢ <;>
      exact address_eq hoff hlen hfits (by omega) (by omega)
  simp only [mem_append, mem_cons, mem_ite_nil_right, not_mem_nil, or_false] at hc
  rcases hc with ((rfl | rfl) | ⟨hne, rfl⟩) | ⟨-, rfl⟩ <;> dsimp only at hcover ⊢ <;>
    exact address_eq hoff hlen hfits (by omega) (by omega)

/-- The header is always written, and everything if the payload is in one piece. -/
lemma readCopies_covers (hlen : entrySize ≤ len)
    (hplace : InOnePiece size rOff len ∨ p < threadOffset) :
    (∃ c ∈ readCopies size rOff len fReadAttach, c.Covers p) ↔
      p < len - threadtimeSize ∨ fReadAttach = true ∧ p < len := by
  unfold readCopies UserCopy.Covers threadOffset threadtimeSize
  unfold InOnePiece threadOffset entrySize at hplace
  unfold entrySize at hlen
  obtain ⟨here, hhere⟩ : ∃ here, here = min len (size - rOff) := ⟨_, rfl⟩
  rw [← hhere]
  dsimp only
  split
  rotate_left
  split
  rotate_left
  split
  all_goals cases fReadAttach <;> simp [or_and_right, exists_or] <;> omega

/-- In two pieces, no copy writes the last four places before the second one. -/
lemma readCopies_gap (hwrap : ¬InOnePiece size rOff len) :
    ∀ c ∈ readCopies size rOff len fReadAttach, ¬c.Covers (size - rOff - 4) := by
  unfold InOnePiece entrySize at hwrap
  intro c hc hcover
  unfold readCopies threadOffset threadtimeSize at hc
  unfold UserCopy.Covers at hcover
  dsimp only at hc
  rw [if_neg (by omega), if_neg (by omega), if_neg (by omega)] at hc
  simp only [mem_append, mem_cons, mem_ite_nil_right, not_mem_nil, or_false] at hc
  rcases hc with ((rfl | rfl) | ⟨-, rfl⟩) | ⟨-, rfl⟩ <;> dsimp only at hcover <;> omega

end

section
variable {log : Log} {rOff count : Nat} {answers : List (Option Nat)} {mem : Bytes}

lemma readCopies_rearranged (hpow : ∃ k, log.size = 2 ^ k) (hoff : rOff < log.size)
    (hfits : getEntryLen log rOff ≤ log.size) {p : Nat}
    (hplace : InOnePiece log.size rOff (getEntryLen log rOff) ∨ p < threadOffset)
    (fReadAttach : Bool) (mem : Bytes) :
    (readCopies log.size rOff (getEntryLen log rOff) fReadAttach).foldl
      (copyToUser log.buffer) mem p = rearranged log rOff fReadAttach mem p := by
  have hlen := entrySize_le_getEntryLen log rOff
  obtain ⟨hcovered, hrest⟩ :=
    copies_spec log.buffer mem (readCopies_agree fReadAttach hoff hlen hfits hplace)
  unfold rearranged
  by_cases hp : p < getEntryLen log rOff - threadtimeSize ∨
      fReadAttach = true ∧ p < getEntryLen log rOff
  · rw [if_pos hp, hcovered ((readCopies_covers hlen hplace).mpr hp), loggerOffset_eq_mod hpow]
  · rw [if_neg hp,
      hrest fun c hc hcover => hp ((readCopies_covers hlen hplace).mp ⟨c, hc, hcover⟩)]

/-- What a read that returns no error did. -/
lemma loggerRead_of_ok (hok : 0 ≤ (loggerRead log rOff count answers mem).1) :
    log.wOff ≠ rOff ∧ getEntryLen log rOff - threadtimeSize ≤ count ∧
      loggerRead log rOff count answers mem =
        (((getEntryLen log rOff - 4 : Nat) : Int),
          loggerOffset log (rOff + getEntryLen log rOff),
          (readCopies log.size rOff (getEntryLen log rOff)
            (decide (getEntryLen log rOff ≤ count))).foldl (copyToUser log.buffer) mem) := by
  generalize hresult : loggerRead log rOff count answers mem = result at hok
  unfold loggerRead at hresult
  dsimp only at hresult
  split at hresult
  · subst hresult
    exact absurd hok (show ¬ 0 ≤ - EAGAIN by decide)
  next hne =>
  split at hresult
  · subst hresult
    exact absurd hok (show ¬ 0 ≤ - EINVAL by decide)
  next hcount =>
  refine ⟨hne, Nat.le_of_not_lt hcount, ?_⟩
  unfold doReadLogToUser at hresult
  rw [decide_eq_decide.mpr Nat.not_lt] at hresult
  split at hresult
  · subst hresult
    exact absurd hok (show ¬ 0 ≤ - EFAULT by decide)
  · next mem' hcopies =>
    rw [copiesToUser_of_ok (by rw [hcopies])] at hcopies
    rw [← hresult, ← (Prod.mk.inj hcopies).2]

lemma loggerRead_ok (hne : log.wOff ≠ rOff) (hcount : getEntryLen log rOff - threadtimeSize ≤ count)
    (mem : Bytes) : 0 ≤ (loggerRead log rOff count [] mem).1 := by
  have hall : ∀ (cs : List UserCopy) (mem : Bytes),
      (copiesToUser log.buffer cs [] mem).1 = true := by
    intro cs
    induction cs with
    | nil => exact fun _ => rfl
    | cons c cs ih => exact fun mem => ih _
  unfold loggerRead doReadLogToUser
  dsimp only
  rw [if_neg hne, if_neg (Nat.not_lt.mpr hcount), copiesToUser_of_ok (hall _ _)]
  exact Int.natCast_nonneg _

/-- Every successful read gives the user the header without `thread_msec`, the payload, and
`thread_msec` if there is room for it, whatever was in the user's buffer before. The memory of the
user behind `count` bytes stays. -/
def Delivers (log : Log) (rOff count : Nat) : Prop :=
  ∀ answers mem, 0 ≤ (loggerRead log rOff count answers mem).1 →
    loggerRead log rOff count answers mem =
        (((getEntryLen log rOff - 4 : Nat) : Int), (rOff + getEntryLen log rOff) % log.size,
          rearranged log rOff (decide (getEntryLen log rOff ≤ count)) mem) ∧
      ∀ p, count ≤ p → (loggerRead log rOff count answers mem).2.2 p = mem p

lemma rearranged_behind (hcount : getEntryLen log rOff - threadtimeSize ≤ count) {p : Nat}
    (hp : count ≤ p) :
    rearranged log rOff (decide (getEntryLen log rOff ≤ count)) mem p = mem p := by
  refine if_neg ?_
  rintro (hlt | ⟨hattach, hlt⟩)
  · omega
  · have := of_decide_eq_true hattach
    omega

/-- Of an entry in the ring, a read delivers what it should exactly if there is nothing to read, no
room for it, or the payload does not go around the end of the buffer. -/
theorem loggerRead_delivers_iff (hpow : ∃ k, log.size = 2 ^ k) (hoff : rOff < log.size)
    (hfits : getEntryLen log rOff ≤ log.size) :
    Delivers log rOff count ↔ log.wOff = rOff ∨ count < getEntryLen log rOff - threadtimeSize ∨
      InOnePiece log.size rOff (getEntryLen log rOff) := by
  have hlen := entrySize_le_getEntryLen log rOff
  constructor
  · intro hdelivers
    by_contra! hno
    obtain ⟨hne, hcount, hwrap⟩ := hno
    -- a buffer whose bytes are not the one that belongs into the gap
    have hok := loggerRead_ok hne hcount fun _ => ~~~log.buffer 0
    have hread := (hdelivers [] _ hok).1
    rw [(loggerRead_of_ok hok).2.2] at hread
    have hgap := congrFun (Prod.mk.inj (Prod.mk.inj hread).2).2 (log.size - rOff - 4)
    rw [(copies_spec (a := 0) log.buffer _ fun c hc hcover =>
        absurd hcover (readCopies_gap hwrap c hc)).2 (readCopies_gap hwrap)] at hgap
    unfold InOnePiece entrySize at hwrap
    unfold entrySize at hlen
    have hplace : log.size - rOff - 4 < getEntryLen log rOff - threadtimeSize := by
      unfold threadtimeSize
      omega
    have hsource : rOff + sourceIndex (getEntryLen log rOff) (log.size - rOff - 4) = log.size := by
      unfold sourceIndex
      rw [if_neg (by unfold threadOffset; omega), if_pos hplace]
      unfold threadtimeSize
      omega
    unfold rearranged at hgap
    rw [if_pos (.inl hplace), hsource, loggerOffset_eq_mod hpow, Nat.mod_self] at hgap
    generalize log.buffer 0 = b at hgap
    revert b
    decide
  · intro hcond answers mem hok
    obtain ⟨hne, hcount, hrun⟩ := loggerRead_of_ok hok
    have hpiece := (hcond.resolve_left hne).resolve_left (Nat.not_lt.mpr hcount)
    rw [hrun, loggerOffset_eq_mod hpow]
    have hmem : (readCopies log.size rOff (getEntryLen log rOff)
        (decide (getEntryLen log rOff ≤ count))).foldl (copyToUser log.buffer) mem =
        rearranged log rOff (decide (getEntryLen log rOff ≤ count)) mem :=
      funext fun p => readCopies_rearranged hpow hoff hfits (.inl hpiece) _ mem
    rw [hmem]
    exact ⟨rfl, fun p hp => rearranged_behind hcount hp⟩

end

/-- A log with one entry of a payload of 20 bytes at an offset. Each byte of the payload is `1`. -/
def oneEntry (off : Nat) : Log where
  buffer := fun p => if p = off then 20 else if p = off + 1 then 0 else 1
  readers := []
  wOff := (off + 44) % 65536
  head := off
  size := 65536

/-- The end of the buffer is in the middle of the header, and the entry is delivered. -/
theorem oneEntry_delivers : Delivers (oneEntry 65526) 65526 44 :=
  (loggerRead_delivers_iff ⟨16, rfl⟩ (show 65526 < (oneEntry 65526).size by decide)
    (by decide)).mpr (.inr (.inr (by decide)))

/-- The buffer ends after ten bytes of the payload. A user with room for the entry without
`thread_msec` does not get the next four bytes, and gets the last four behind its 40 bytes. -/
theorem read_leaves_gap : ¬Delivers (oneEntry 65502) 65502 40 ∧
      (loggerRead (oneEntry 65502) 65502 40 [] (fun _ => 0)).1 = 40 ∧
      ((range 4).map fun i => (oneEntry 65502).buffer (loggerOffset (oneEntry 65502)
        (65502 + sourceIndex 44 (30 + i)))) = [1, 1, 1, 1] ∧ ((range 4).map fun i =>
        (loggerRead (oneEntry 65502) 65502 40 [] (fun _ => 0)).2.2 (30 + i)) = [0, 0, 0, 0] ∧
      ((range 4).map fun i =>
        (loggerRead (oneEntry 65502) 65502 40 [] (fun _ => 0)).2.2 (40 + i)) = [1, 1, 1, 1] := by
  refine ⟨fun h => ?_, by decide⟩
  have hmem := congrArg (fun r => r.2.2 30) (h [] (fun _ => 0) (by decide)).1
  revert hmem
  decide

end Wm8850.Logger
