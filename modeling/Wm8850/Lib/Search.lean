import Mathlib.Data.Set.Lattice
import Mathlib.Data.Nat.Count

/-! # Nested loops that look for the best candidate

A search goes through its candidates in nested loops (`scan`), keeps the best one, and leaves all
loops at a candidate that cannot be improved. `Covers Inv Hit f P S`: from a state that has
accounted for `T`, with all of `P` in `T`, the loop leaves with a hit or accounts for `T ∪ S`.
`covers_scan` reduces nested loops to the innermost one. -/

namespace Wm8850.Lib

open Nat

section
variable {α β γ : Type}

/-- A loop over a list, with a body that says whether to leave all loops. -/
def scan (f : α → β → Bool × β) : List α → β → Bool × β
  | [], b => (false, b)
  | a :: l, b => if (f a b).1 then f a b else scan f l (f a b).2

/-- A part of a search, after all of `P`, ends with a hit, or with a state that accounts for the
candidates in `S` as well. -/
def Covers (Inv : Set γ → β → Prop) (Hit : β → Prop) (f : β → Bool × β) (P S : Set γ) : Prop :=
  ∀ T b, P ⊆ T → Inv T b →
    ((f b).1 = true ∧ Hit (f b).2) ∨ ((f b).1 = false ∧ Inv (T ∪ S) (f b).2)

variable {Inv : Set γ → β → Prop} {Hit : β → Prop}

lemma mem_cons_split (S : α → Set γ) (a : α) (l : List α) :
    {s | ∃ c ∈ a :: l, s ∈ S c} = S a ∪ {s | ∃ c ∈ l, s ∈ S c} := by
  ext s
  simp

/-- A loop covers what its rounds cover, each of which comes after the rounds before it. -/
lemma covers_scan {f : α → β → Bool × β} {S : α → Set γ} {P : Set γ} {l : List α}
    (h : ∀ l₁ a l₂, l = l₁ ++ a :: l₂ →
      Covers Inv Hit (f a) (P ∪ {s | ∃ c ∈ l₁, s ∈ S c}) (S a)) :
    Covers Inv Hit (scan f l) P {s | ∃ a ∈ l, s ∈ S a} := by
  have hnone : {s | ∃ a ∈ ([] : List α), s ∈ S a} = ∅ := by simp
  induction l generalizing P with
  | nil =>
    intro T b _ hb
    refine .inr ⟨rfl, ?_⟩
    rw [hnone, Set.union_empty]
    exact hb
  | cons a l ih =>
    intro T b hT hb
    have hfirst := h [] a l rfl
    rw [hnone, Set.union_empty] at hfirst
    rw [scan]
    obtain ⟨htrue, hhit⟩ | ⟨hfalse, hinv⟩ := hfirst T b hT hb
    · rw [if_pos htrue]
      exact .inl ⟨htrue, hhit⟩
    rw [if_neg (by simp [hfalse]), mem_cons_split, ← Set.union_assoc]
    refine ih (P := P ∪ S a) (fun l₁ c l₂ hl => ?_) (T ∪ S a) (f a b).2
      (Set.union_subset_union_left _ hT) hinv
    rw [Set.union_assoc, ← mem_cons_split]
    exact h (a :: l₁) c l₂ (congrArg (a :: ·) hl)

end

/-! ### Loops that count

`countLoop` counts the numbers of a range that pass a test, and `reachLoop` stops where the count
reaches a bound. In terms of `Nat.count` the second is the inverse of the first
(`reachLoop_select`). -/

section
variable (p : Nat → Prop) [DecidablePred p]

/-- `for (j = i; j < i + n; j++) if (p(j)) acc++;` -/
def countLoop : Nat → Nat → Nat → Nat
  | 0, _, acc => acc
  | n + 1, i, acc => countLoop n (i + 1) (if p i then acc + 1 else acc)

/-- `for (j = i; j < i + n; j++) { if (p(j)) acc++; if (acc >= t) break; }`, and `j` after it. -/
def reachLoop (t : Nat) : Nat → Nat → Nat → Nat
  | 0, i, _ => i
  | n + 1, i, acc =>
    let acc := if p i then acc + 1 else acc
    if t ≤ acc then i else reachLoop t n (i + 1) acc

lemma count_shift_succ (i n : Nat) : Nat.count (fun k => p (i + k)) (n + 1)
      = (if p i then 1 else 0) + Nat.count (fun k => p (i + 1 + k)) n := by
  have h := count_add (fun k => p (i + k)) 1 n
  rw [add_comm 1 n] at h
  rw [h]
  simp [count_succ, add_assoc]

lemma countLoop_eq (n i acc : Nat) :
    countLoop p n i acc = acc + Nat.count (fun k => p (i + k)) n := by
  induction n generalizing i acc with
  | zero => simp [countLoop]
  | succ n ih =>
    rw [countLoop, ih, count_shift_succ]
    split <;> omega

lemma countLoop_not (n i : Nat) :
    countLoop (fun k => ¬ p k) n i 0 + Nat.count (fun k => p (i + k)) n = n := by
  rw [countLoop_eq]
  induction n with
  | zero => simp
  | succ n ih =>
    rw [count_succ, count_succ]
    by_cases hp : p (i + n)
    · rw [if_pos hp, if_neg (not_not_intro hp)]
      omega
    · rw [if_neg hp, if_pos hp]
      omega

lemma reachLoop_spec (t n i acc : Nat) (hacc : acc < t ∨ acc = 0) :
    (∃ m < n, reachLoop p t n i acc = i + m ∧ t ≤ acc + Nat.count (fun k => p (i + k)) (m + 1) ∧
      (0 < t → acc + Nat.count (fun k => p (i + k)) m < t)) ∨ (reachLoop p t n i acc = i + n ∧
      (0 < n → acc + Nat.count (fun k => p (i + k)) n < t)) := by
  induction n generalizing i acc with
  | zero => exact .inr ⟨rfl, fun h => absurd h (Nat.lt_irrefl 0)⟩
  | succ n ih =>
    have hfirst : (if p i then acc + 1 else acc)
        = acc + Nat.count (fun k => p (i + k)) 1 := by
      simp only [count_succ, Nat.add_zero]
      split <;> rfl
    rw [reachLoop]
    by_cases hstop : t ≤ if p i then acc + 1 else acc
    · refine .inl ⟨0, succ_pos n, ?_, by rw [← hfirst]; exact hstop, fun ht => ?_⟩
      · simp [if_pos hstop]
      · rw [count_zero]
        omega
    simp only [if_neg hstop]
    have hnext := ih (i + 1) (if p i then acc + 1 else acc) (.inl (Nat.lt_of_not_le hstop))
    have hshift : ∀ m, (if p i then acc + 1 else acc) + Nat.count (fun k => p (i + 1 + k)) m
        = acc + Nat.count (fun k => p (i + k)) (m + 1) := by
      intro m
      rw [count_shift_succ]
      split <;> omega
    rcases hnext with ⟨m, hm, hrun, hreach, hbefore⟩ | ⟨hrun, hend⟩
    · refine .inl ⟨m + 1, by omega, by omega, ?_, fun ht => ?_⟩
      · rw [← hshift]
        exact hreach
      · rw [← hshift]
        exact hbefore ht
    refine .inr ⟨by omega, fun _ => ?_⟩
    rw [← hshift]
    cases n with
    | zero =>
      rw [count_zero]
      omega
    | succ n => exact hend (succ_pos n)

lemma reachLoop_select {t : Nat} (ht : 0 < t) (n i : Nat) :
    (Nat.count (fun k => p (i + k)) n < t ∧ reachLoop p t n i 0 = i + n) ∨
    ∃ m < n, reachLoop p t n i 0 = i + m ∧ p (i + m) ∧
      Nat.count (fun k => p (i + k)) m + 1 = t ∧ t ≤ Nat.count (fun k => p (i + k)) n := by
  rcases reachLoop_spec p t n i 0 (.inr rfl) with ⟨m, hm, hrun, hreach, hbefore⟩ | ⟨hrun, hend⟩
  · have hmono := count_monotone (fun k => p (i + k)) (succ_le_of_lt hm)
    rw [count_succ] at hreach
    by_cases hp : p (i + m)
    · rw [if_pos hp] at hreach
      refine .inr ⟨m, hm, hrun, hp, by omega, ?_⟩
      have hsucc := count_succ (fun k => p (i + k)) m
      rw [if_pos hp] at hsucc
      rw [succ_eq_add_one] at hmono
      omega
    · rw [if_neg hp] at hreach
      omega
  · refine .inl ⟨?_, hrun⟩
    cases n with
    | zero => simpa using ht
    | succ n => simpa using hend (succ_pos n)

end

end Wm8850.Lib
