import Mathlib.Data.Nat.Find

/-! # Runs of a labelled transition system

`Reach init step s`: some run leads to `s`. In an infinite run, steps that do not count keep the
rank of a goal or reach the goal, and each step that counts lowers it or reaches the goal. If steps
that count keep coming, the goal is reached (`eventually_of_rank`). -/

namespace Wm8850.Lib

/-- The states of the runs from an initial state. -/
inductive Reach {σ ι : Type} (init : σ → Prop) (step : ι → σ → σ → Prop) : σ → Prop where
  | start {s : σ} : init s → Reach init step s
  | next {s t : σ} (i : ι) : Reach init step s → step i s t → Reach init step t

section
variable {σ ι : Type} {init : σ → Prop} {step : ι → σ → σ → Prop} {s : σ}

lemma Reach.invariant (Inv : σ → Prop) (hinit : ∀ s, init s → Inv s)
    (hstep : ∀ i s t, Inv s → step i s t → Inv t) (h : Reach init step s) : Inv s := by
  induction h with
  | start h0 => exact hinit _ h0
  | next i _ hs ih => exact hstep i _ _ ih hs

lemma Reach.mono {step' : ι → σ → σ → Prop} (hstep : ∀ i s t, step' i s t → step i s t)
    (h : Reach init step' s) : Reach init step s := by
  induction h with
  | start h0 => exact Reach.start h0
  | next i _ hs ih => exact Reach.next i ih (hstep i _ _ hs)

lemma Reach.foldlM {exec : σ → ι → Option σ} (hexec : ∀ i s t, exec s i = some t → step i s t)
    (labels : List ι) {t : σ} (h : Reach init step s) (hrun : labels.foldlM exec s = some t) :
    Reach init step t := by
  induction labels generalizing s with
  | nil =>
    cases hrun
    exact h
  | cons i labels ih =>
    obtain ⟨u, hu, hrest⟩ := Option.bind_eq_some_iff.mp hrun
    exact ih (Reach.next i h (hexec i s u hu)) hrest

end

section
variable {waits : Nat → Nat → Prop} {done tick : Nat → Prop}

lemma waits_until {k n m : Nat}
    (hkeep : ∀ k n, waits k n → ¬ tick n → done (n + 1) ∨ waits k (n + 1)) (h : waits k n)
    (hnm : n ≤ m) (hquiet : ∀ i, n ≤ i → i < m → ¬ tick i) : (∃ i, n ≤ i ∧ done i) ∨ waits k m := by
  induction m, hnm using Nat.le_induction with
  | base => exact .inr h
  | succ m hnm ih =>
    rcases ih fun i hi him => hquiet i hi (by omega) with hdone | hwaits
    · exact .inl hdone
    · rcases hkeep k m hwaits (hquiet m hnm (by omega)) with hdone | hnext
      · exact .inl ⟨m + 1, by omega, hdone⟩
      · exact .inr hnext

lemma eventually_of_rank (hkeep : ∀ k n, waits k n → ¬ tick n → done (n + 1) ∨ waits k (n + 1))
    (htick : ∀ k n, waits k n → tick n → done (n + 1) ∨ ∃ j < k, waits j (n + 1))
    (hfair : ∀ k n, waits k n → ∃ m, n ≤ m ∧ tick m) {k n : Nat} (h : waits k n) :
    ∃ m, n ≤ m ∧ done m := by
  induction k using Nat.strong_induction_on generalizing n with
  | h k ih =>
    -- The first step that counts.
    classical
    have hnext := hfair k n h
    have hfirst := Nat.find_spec hnext
    have hquiet : ∀ i, n ≤ i → i < Nat.find hnext → ¬ tick i := by
      intro i hi hlt ht
      exact Nat.find_min hnext hlt ⟨hi, ht⟩
    rcases waits_until hkeep h hfirst.1 hquiet with hdone | hwaits
    · exact hdone
    · rcases htick k _ hwaits hfirst.2 with hdone | ⟨j, hj, hlower⟩
      · exact ⟨_, by omega, hdone⟩
      · obtain ⟨m, hm, hdone⟩ := ih j hj hlower
        exact ⟨m, by omega, hdone⟩

end

end Wm8850.Lib
