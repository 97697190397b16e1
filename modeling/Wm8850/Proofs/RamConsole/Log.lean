import Wm8850.RamConsole.Log

/-! # The saved log is the end of what was written

`Logs`: the kept bytes stand in the ring from the oldest one on. The ring has no flag that says that
it is full: while it is not, `start` and `size` are the same, and `start` is the buffer's size when
it has just become full. -/

namespace Wm8850.RamConsole

open Lib List Nat

variable {n : Nat} {b : Buffer} {log : List Byte}

structure Logs (n : Nat) (b : Buffer) (log : List Byte) : Prop where
  sig_eq : b.sig = ramConsoleSig
  start_le : b.start ≤ b.size
  size_eq : b.size = min log.length n
  start_eq : b.size < n → b.start = b.size
  holds : RingHolds b.data n ((b.start + (n - b.size)) % n) (log.drop (log.length - n))

lemma drop_last_append (log s : List Byte) (n : Nat) :
    (log.drop (log.length - n) ++ s.drop (s.length - n)).drop
      (min log.length n + min s.length n - n)
      = (log ++ s).drop ((log ++ s).length - n) := by
  rw [drop_append, drop_append, drop_drop, drop_drop, length_drop, length_append]
  by_cases hs : n ≤ s.length
  · rw [drop_eq_nil_of_le (by omega : log.length ≤ _),
      drop_eq_nil_of_le (by omega : log.length ≤ _)]
    congr 2
    omega
  · congr 2 <;> omega

/-- The writes of a call go around the end of the ring. -/
theorem ramConsoleWrite_eq (hstart : b.start ≤ n) (s : List Byte) :
    let t := s.drop (s.length - n)
    ∃ data, RingWrites b.data n (b.start % n) t data ∧ ramConsoleWrite n b s =
      if n - b.start < t.length then
        { b with start := t.length - (n - b.start), size := n, data := data }
      else { b with start := b.start + t.length, data := data,
                    size := if b.size < n then b.size + t.length else b.size } := by
  intro t
  have hlast : (if s.length > n then s.drop (s.length - n) else s) = t := by
    split_ifs with h
    · rfl
    · simp [t, Nat.sub_eq_zero_of_le (Nat.le_of_not_lt h), drop_zero]
  have hlen : t.length ≤ n := by simp only [t, length_drop]; omega
  simp only [ramConsoleWrite, hlast]
  by_cases hrem : n - b.start < t.length
  · refine ⟨store (store b.data b.start (t.take (n - b.start))) 0 (t.drop (n - b.start)), ?_, ?_⟩
    · by_cases ho : b.start < n
      · rw [mod_eq_of_lt ho]
        exact ringWrites_split b.data ho hlen
      · have hfull : b.start = n := by omega
        rw [hfull, Nat.sub_self, take_zero, store_nil, mod_self]
        exact ringWrites_store b.data (by omega)
    · simp only [if_pos hrem, ramConsoleUpdate, length_drop, Nat.lt_irrefl, if_false, Nat.zero_add]
  refine ⟨store b.data b.start t, ?_, ?_⟩
  · by_cases ho : b.start < n
    · rw [mod_eq_of_lt ho]
      exact ringWrites_store b.data (by omega)
    · rw [eq_nil_of_length_eq_zero (show t.length = 0 by omega), store_nil]
      exact RingWrites.nil
  · simp [if_neg hrem, ramConsoleUpdate]

lemma Logs.write (h : Logs n b log) (s : List Byte) :
    Logs n (ramConsoleWrite n b s) (log ++ s) := by
  obtain ⟨hsig, hle, hsize, hstart, hholds⟩ := h
  obtain ⟨data, hwrite, heq⟩ := ramConsoleWrite_eq (show b.start ≤ n by omega) s
  have hkept : (log.drop (log.length - n)).length = b.size := by rw [length_drop]; omega
  have hlen : (s.drop (s.length - n)).length = min s.length n := by rw [length_drop]; omega
  have hpush := hholds.push hwrite (by
    rw [hkept, mod_add_mod, add_assoc, Nat.sub_add_cancel (by omega), add_mod_right]) (by omega)
  rw [hkept, hlen, hsize, drop_last_append, ← hsize, mod_add_mod] at hpush
  rw [heq, hlen]
  -- the ring is full afterwards, or nothing is pushed out
  by_cases hfull : n ≤ b.size + min s.length n
  · have hindex : b.start + (n - b.size) + (b.size + min s.length n - n) = b.start + min s.length
        n := by omega
    rw [hindex] at hpush
    split_ifs with hrem hroom
    · refine ⟨hsig, by dsimp only; omega, by simp only [length_append]; omega,
        fun hlt => absurd hlt (lt_irrefl n), ?_⟩
      rwa [Nat.sub_self, add_zero, ← add_mod_right, show min s.length n - (n - b.start) + n =
        b.start + min s.length n by omega]
    all_goals
      refine ⟨hsig, by dsimp only; omega, by simp only [length_append]; omega,
        fun hlt => by dsimp only at hlt ⊢; omega, ?_⟩
    · rwa [show n - (b.size + min s.length n) = 0 by omega]
    · rwa [show n - b.size = 0 by omega]
  have hroom : b.size < n := by omega
  rw [if_neg (by omega), if_pos hroom]
  refine ⟨hsig, by dsimp only; omega, by simp only [length_append]; omega,
    fun _ => by dsimp only; omega, ?_⟩
  rwa [show b.start + min s.length n + (n - (b.size + min s.length n)) =
    b.start + (n - b.size) + (b.size + min s.length n - n) by omega]

lemma Logs.saveOld (h : Logs n b log) : ramConsoleSaveOld b = log.drop (log.length - n) := by
  obtain ⟨-, hle, hsize, hstart, hholds⟩ := h
  unfold ramConsoleSaveOld
  apply ext_getElem
  · simp only [length_append, length_map, length_range, length_drop]
    omega
  intro i hi hi'
  have hcell := hholds i _ (getElem?_eq_getElem hi')
  rw [length_drop] at hi'
  rw [← hcell, mod_add_mod]
  by_cases hfirst : i < b.size - b.start
  · rw [getElem_append_left (by simpa using hfirst), getElem_map, getElem_range,
      show b.start + (n - b.size) + i = b.start + i by omega, mod_eq_of_lt (by omega)]
  · rw [getElem_append_right (by simpa using hfirst), getElem_map, getElem_range, length_map,
      length_range,
      show b.start + (n - b.size) + i = i - (b.size - b.start) + n by omega, add_mod_right,
      mod_eq_of_lt (by omega)]

lemma logs_foldl (hlog : Logs n b log) (ws : List (List Byte)) :
    Logs n (ws.foldl (ramConsoleWrite n) b) (log ++ ws.flatten) := by
  induction ws generalizing b log with
  | nil => simpa using hlog
  | cons s ws ih =>
    rw [flatten_cons, ← append_assoc]
    exact ih (hlog.write s)

/-- After any writes the next boot saves the last bytes of them, if it has memory for them. -/
theorem next_boot_saves {bufferSize : Nat} {dest : Bool} {b₀ b : Buffer} {old : Option (List Byte)}
    (hsize : bufferSize < wordSize) (hinit : ramConsoleInit bufferSize dest b₀ = some (b, old))
    (ws : List (List Byte)) (dest' : Bool) :
    let n := bufferSize - headerSize
    let b' := ws.foldl (ramConsoleWrite n) b
    (b'.start ≤ b'.size ∧ b'.size ≤ n) ∧ (ramConsoleInit bufferSize dest' b').map Prod.snd =
      some (if dest' then some (ws.flatten.drop (ws.flatten.length - n)) else none) := by
  intro n b'
  have hle : headerSize ≤ bufferSize := by
    by_contra hlt
    rw [ramConsoleInit, if_pos] at hinit
    · cases hinit
    · simp only [wsub, headerSize, wordSize] at hlt hsize ⊢
      omega
  have hn : wsub bufferSize headerSize = n := wsub_of_le hle hsize
  have hn' : ¬ n > bufferSize := Nat.not_lt_of_le (sub_le _ _)
  simp only [ramConsoleInit, hn, if_neg hn', Option.some.injEq, Prod.mk.injEq] at hinit
  have hfresh : Logs n b [] := by
    rw [← hinit.1]
    exact ⟨rfl, Nat.le_refl 0, by simp, fun _ => rfl, by rw [drop_nil]; exact RingHolds.nil⟩
  have hlogs : Logs n b' ws.flatten := logs_foldl hfresh ws
  have hbound : b'.size ≤ n := by rw [hlogs.size_eq]; exact Nat.min_le_right _ _
  refine ⟨⟨hlogs.start_le, hbound⟩, ?_⟩
  have hvalid : ¬ (b'.size > n ∨ b'.start > b'.size) := by have := hlogs.start_le; omega
  simp [ramConsoleInit, hn, hn', hlogs.sig_eq, hvalid, hlogs.saveOld]

/-- Five bytes in a buffer of four. -/
theorem next_boot_saves_four :
    (ramConsoleInit 16 true ([[1, 2, 3], [4, 5]].foldl (ramConsoleWrite 4)
    ⟨ramConsoleSig, 0, 0, fun _ => 0⟩)).map Prod.snd = some (some [2, 3, 4, 5]) :=
  (@next_boot_saves 16 true ⟨0, 0, 0, fun _ => 0⟩ _ none (by decide) rfl [[1, 2, 3], [4, 5]] true).2

end Wm8850.RamConsole
