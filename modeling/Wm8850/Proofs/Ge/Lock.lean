import Wm8850.Ge.Device

/-! # Who holds the lock of the device

`gmp_device_unlock` never clears `gmp_sem_owner`, so a task can return its permit a second time, by
an unlock or by closing the device, until another task takes the lock. `LockState.OnePermit`: the
permit is in the semaphore or with one task, and only this task is inside a call. -/

namespace Wm8850.Ge

open Lib Function

variable {Task : Type} [DecidableEq Task] {s s' : LockState Task} {t : Task}

omit [DecidableEq Task] in
/-- The one permit is in the semaphore or with one task. -/
structure LockState.OnePermit (s : LockState Task) : Prop where
  unique : ∀ t u, s.holds t = true → s.holds u = true → t = u
  count : s.sem = 1 ∧ (∀ t, s.holds t = false) ∨ s.sem = 0 ∧ ∃ t, s.holds t = true
  busy : ∀ t, s.pc t = .locking ∨ s.pc t = .unlocking → s.holds t = true

omit [DecidableEq Task] in
lemma onePermit_lockStart : (lockStart : LockState Task).OnePermit where
  unique t u ht _ := by simp [lockStart] at ht
  count := .inl ⟨rfl, fun _ => rfl⟩
  busy t ht := by simp [lockStart] at ht

lemma LockState.OnePermit.move (h : s.OnePermit) {pc : LockPc}
    (hsem : s'.sem = s.sem) (hholds : s'.holds = s.holds) (hpc : s'.pc = update s.pc t pc)
    (ht : pc = .locking ∨ pc = .unlocking → s.holds t = true) : s'.OnePermit where
  unique := by
    rw [hholds]
    exact h.unique
  count := by
    rw [hholds, hsem]
    exact h.count
  busy u hu := by
    rw [hpc] at hu
    rw [hholds]
    by_cases heq : u = t
    · subst heq
      rw [update_self] at hu
      exact ht hu
    · rw [update_of_ne heq] at hu
      exact h.busy u hu

lemma LockState.OnePermit.down (h : s.OnePermit) (hsem : 0 < s.sem) : LockState.OnePermit { s with
      sem := s.sem - 1, pc := update s.pc t .locking, holds := update s.holds t true } := by
  -- The semaphore had the permit, so no other task has it.
  have hnone : ∀ u, s.holds u = false := by
    rcases h.count with ⟨-, hnone⟩ | ⟨h0, -⟩
    · exact hnone
    · omega
  have honly : ∀ u, update s.holds t true u = true → u = t := by
    intro u hu
    by_contra hne
    rw [update_of_ne hne, hnone u] at hu
    exact absurd hu (by simp)
  refine ⟨fun u v hu hv => (honly u hu).trans (honly v hv).symm, .inr ⟨?_, t, ?_⟩, ?_⟩
  · show s.sem - 1 = 0
    rcases h.count with ⟨h1, -⟩ | ⟨h0, -⟩ <;> omega
  · exact update_self ..
  intro u hu
  by_cases heq : u = t
  · subst heq
    exact update_self ..
  have hu' : s.pc u = .locking ∨ s.pc u = .unlocking := by
    simpa [update_of_ne heq] using hu
  have hholds := h.busy u hu'
  rw [hnone u] at hholds
  exact absurd hholds (by simp)

lemma LockState.OnePermit.up (h : s.OnePermit) (ht : s.holds t = true) :
    LockState.OnePermit { s with
      sem := s.sem + 1, pc := update s.pc t .clearing
      holds := update s.holds t false } := by
  have hnone : ∀ u, update s.holds t false u = false := by
    intro u
    by_cases heq : u = t
    · subst heq
      exact update_self ..
    · rw [update_of_ne heq, ← Bool.not_eq_true]
      exact fun hu => heq (h.unique u t hu ht)
  have hsem : s.sem = 0 := by
    rcases h.count with ⟨-, hfree⟩ | ⟨h0, -⟩
    · rw [hfree t] at ht
      exact absurd ht (by simp)
    · exact h0
  refine ⟨fun u v hu _ => ?_, .inl ⟨by show s.sem + 1 = 1; omega, hnone⟩, fun u hu => ?_⟩
  · have hu' : update s.holds t false u = true := hu
    rw [hnone u] at hu'
    exact absurd hu' (by simp)
  by_cases heq : u = t
  · subst heq
    simp at hu
  · -- A task inside a call would hold the permit, but `t` does.
    have hu' : s.pc u = .locking ∨ s.pc u = .unlocking := by
      simpa [update_of_ne heq] using hu
    exact absurd (h.unique u t (h.busy u hu') ht) heq

lemma LockState.OnePermit.step (h : s.OnePermit) {op : LockOp Task}
    (hstep : LockStep op s s') (hfair : op.Fair s) : s'.OnePermit := by
  unfold LockStep at hstep
  cases op with
  | down t =>
    simp only [LockOp.exec] at hstep
    split at hstep <;> cases hstep
    next hpc => exact h.down hpc.2
  | own t =>
    simp only [LockOp.exec] at hstep
    split at hstep <;> cases hstep
    exact h.move rfl rfl rfl (by simp)
  | test t =>
    simp only [LockOp.exec] at hstep
    split at hstep
    · split at hstep
      · next howner =>
        cases hstep
        exact h.move rfl rfl rfl fun _ => hfair howner
      · cases hstep
        exact h
    · cases hstep
  | up t =>
    simp only [LockOp.exec] at hstep
    split at hstep <;> cases hstep
    next hpc => exact h.up (h.busy t (.inr hpc))
  | clear t =>
    simp only [LockOp.exec] at hstep
    split at hstep <;> cases hstep
    exact h.move rfl rfl rfl (by simp)

/-- A step in which no task unlocks what it does not hold. -/
def FairStep (op : LockOp Task) (s s' : LockState Task) : Prop := LockStep op s s' ∧ op.Fair s

lemma onePermit_of_reach (h : Reach (fun s => s = lockStart) FairStep s) : s.OnePermit := by
  refine Reach.invariant LockState.OnePermit ?_ ?_ h
  · rintro s rfl
    exact onePermit_lockStart
  · intro op s s' hinv hstep
    exact hinv.step hstep.1 hstep.2

/-- In every run in which a task without the lock never unlocks while `gmp_sem_owner` names it, at
most one task holds the lock, and an unlock of another one changes nothing. The condition is sharp:
an unlock that violates it adds a second permit. -/
theorem lock_exclusive : (∀ s : LockState Task, Reach (fun s => s = lockStart) FairStep s →
      (∀ t u, s.holds t = true → s.holds u = true → t = u) ∧ s.sem ≤ 1 ∧
      ∀ t, s.holds t = false → s.pc t ≠ .unlocking ∧ ∀ s', FairStep (.test t) s s' → s' = s) ∧
    ∀ (s : LockState Task) (t : Task), s.OnePermit → s.pc t = .idle → s.holds t = false →
      s.owner = some t → ∃ s₁ s₂, LockStep (.test t) s s₁ ∧ LockStep (.up t) s₁ s₂ ∧
        (s₂.sem = 2 ∨ s₂.sem = 1 ∧ ∃ u, s₂.holds u = true) := by
  constructor
  · intro s h
    have hone := onePermit_of_reach h
    refine ⟨hone.unique, ?_, fun t ht => ⟨fun hpc => ?_, fun s' hstep => ?_⟩⟩
    · rcases hone.count with ⟨h1, -⟩ | ⟨h0, -⟩ <;> omega
    · rw [hone.busy t (.inr hpc)] at ht
      exact absurd ht (by simp)
    -- The condition says that `gmp_sem_owner` is another task.
    have howner : s.owner ≠ some t := by
      intro howner
      rw [hstep.2 howner] at ht
      exact absurd ht (by simp)
    have hexec : (LockOp.test t).exec s = some s' := hstep.1
    simp only [LockOp.exec] at hexec
    split at hexec
    · cases hexec
      rfl
    · cases hexec
  intro s t hone hpc ht howner
  refine ⟨{ s with pc := update s.pc t .unlocking }, { s with
      sem := s.sem + 1
      pc := update (update s.pc t .unlocking) t .clearing
      holds := update s.holds t false }, ?_, ?_, ?_⟩
  · simp [LockStep, LockOp.exec, hpc, howner]
  · simp [LockStep, LockOp.exec]
  rcases hone.count with ⟨h1, -⟩ | ⟨h0, u, hu⟩
  · exact .inl (by show s.sem + 1 = 2; omega)
  refine .inr ⟨by show s.sem + 1 = 1; omega, u, ?_⟩
  have hne : u ≠ t := by
    rintro rfl
    rw [hu] at ht
    exact absurd ht (by simp)
  show update s.holds t false u = true
  rw [update_of_ne hne]
  exact hu

/-- Task 0 locks and unlocks the device, and then task 1 locks it. -/
theorem lock_exclusive_two : ∃ s : LockState Nat, Reach (fun s => s = lockStart) FairStep s ∧
    s.holds 1 = true ∧ s.owner = some 1 ∧
      s.sem ≤ 1 ∧ ∀ t u, s.holds t = true → s.holds u = true → t = u := by
  have hstart : Reach (fun s => s = lockStart) FairStep (lockStart : LockState Nat) :=
    Reach.start rfl
  have hnext : ∀ {s t : LockState Nat} (op : LockOp Nat),
      Reach (fun s => s = lockStart) FairStep s → op.exec s = some t → op.Fair s →
      Reach (fun s => s = lockStart) FairStep t :=
    fun op h hexec hfair => Reach.next op h ⟨hexec, hfair⟩
  have hlocked := hnext (.own 0) (hnext (.down 0) hstart rfl trivial) rfl trivial
  have hup := hnext (.up 0) (hnext (.test 0) hlocked rfl fun _ => rfl) rfl trivial
  have hdown := hnext (.down 1) (hnext (.clear 0) hup rfl trivial) rfl trivial
  have hother := hnext (.own 1) hdown rfl trivial
  obtain ⟨hunique, hsem, -⟩ := lock_exclusive.1 _ hother
  exact ⟨_, hother, rfl, rfl, hsem, hunique⟩

def closeAfterUnlock : List (LockOp Nat) :=
  [.down 0, .own 0, .test 0, .up 0, .clear 0, .test 0, .up 0, .clear 0]

/-- Then the semaphore has two permits, and two tasks can hold the lock. -/
theorem closeAfterUnlock_two_holders :
    (∃ s : LockState Nat, Reach (fun s => s = lockStart) LockStep s ∧ s.sem = 2) ∧
    ∃ s : LockState Nat, Reach (fun s => s = lockStart) LockStep s ∧ s.holds 1 = true ∧
      s.holds 2 = true := by
  have hstart : Reach (fun s => s = lockStart) LockStep (lockStart : LockState Nat) :=
    Reach.start rfl
  have hclosed := hstart.foldlM (fun _ _ _ h => h) closeAfterUnlock rfl
  have hlocked := hclosed.foldlM (fun _ _ _ h => h) [.down 1, .down 2] rfl
  exact ⟨⟨_, hclosed, rfl⟩, _, hlocked, rfl, rfl⟩

end Wm8850.Ge
