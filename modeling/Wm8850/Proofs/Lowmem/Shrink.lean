import Mathlib.Data.Prod.Lex
import Wm8850.Lowmem.Shrink

/-! # Which task is killed

After each turn the selected task is the first greatest one of those seen (`Greatest`), by `oom_adj`
and then by size. -/

namespace Wm8850.Lowmem

open Lib List

/-- The task can be killed, and the greatest key is killed first. -/
def Task.Qualifies (p : Task) (minAdj : Int) (key : Int ×ₗ Int) : Prop :=
  ∃ adj rss, p.signal = some adj ∧ p.mm = some rss ∧ minAdj ≤ adj ∧ 0 < rss ∧ key = toLex (adj, rss)

/-- `t` has the key `key`, no task has a greater one, and those before it in the list have smaller
ones. -/
def Greatest (minAdj : Int) (tasks : List Task) (t : Task) (key : Int ×ₗ Int) : Prop :=
  ∃ before after, tasks = before ++ t :: after ∧ t.Qualifies minAdj key ∧
    (∀ u ∈ before, ∀ k, u.Qualifies minAdj k → k < key) ∧
    ∀ u ∈ after, ∀ k, u.Qualifies minAdj k → k ≤ key

/-- `i` is the first threshold with both the free pages and the pages of files below it. -/
def Params.Applies (c : Params) (x : Counters) (i : Nat) : Prop :=
  i < c.arraySize ∧ x.nrFreePages < c.lowmemMinfree i ∧
    wsub x.nrFilePages x.nrShmem < c.lowmemMinfree i ∧
    ∀ j < i, c.lowmemMinfree j ≤ x.nrFreePages ∨
      c.lowmemMinfree j ≤ wsub x.nrFilePages x.nrShmem

section
variable {minAdj : Int} {tasks : List Task} {p t : Task} {k key : Int ×ₗ Int}

/-- What the loop has selected after the tasks of the list. -/
def Best (minAdj : Int) (tasks : List Task) : Option Selected → Prop
  | none => ∀ u ∈ tasks, ∀ k, ¬ u.Qualifies minAdj k
  | some s => Greatest minAdj tasks s.task (toLex (s.oomAdj, s.tasksize))

lemma Qualifies.unique (h : p.Qualifies minAdj k) (h' : p.Qualifies minAdj key) : k = key := by
  obtain ⟨adj, rss, hs, hm, -, -, rfl⟩ := h
  obtain ⟨adj', rss', hs', hm', -, -, rfl⟩ := h'
  cases hs.symm.trans hs'
  cases hm.symm.trans hm'
  rfl

section
variable {sel : Option Selected} (hb : Best minAdj tasks sel)
include hb

/-- A task that is not taken has no greater key than the one that is kept. -/
theorem Best.keep (hp : ∀ k, p.Qualifies minAdj k → ∃ s ∈ sel, k ≤ toLex (s.oomAdj, s.tasksize)) :
    Best minAdj (tasks ++ [p]) sel := by
  cases sel with
  | none =>
    intro u hu k hk
    rcases mem_append.mp hu with hu | hu
    · exact hb u hu k hk
    · cases mem_singleton.mp hu
      obtain ⟨s, hs, -⟩ := hp k hk
      cases hs
  | some s =>
    obtain ⟨before, after, rfl, hq, hbefore, hafter⟩ := hb
    refine ⟨before, after ++ [p], by simp, hq, hbefore, fun u hu k hk => ?_⟩
    rcases mem_append.mp hu with hu | hu
    · exact hafter u hu k hk
    · cases mem_singleton.mp hu
      obtain ⟨s', hs', hle⟩ := hp k hk
      cases hs'
      exact hle

lemma Best.take {rss adj : Int} (hq : p.Qualifies minAdj (toLex (adj, rss)))
    (hlt : ∀ s ∈ sel, toLex (s.oomAdj, s.tasksize) < toLex (adj, rss)) :
    Best minAdj (tasks ++ [p]) (some ⟨p, rss, adj⟩) := by
  refine ⟨tasks, [], rfl, hq, fun u hu k hk => ?_, by simp⟩
  cases sel with
  | none => exact absurd hk (hb u hu k)
  | some s =>
    obtain ⟨before, after, rfl, hs, hbefore, hafter⟩ := hb
    refine lt_of_le_of_lt ?_ (hlt s rfl)
    rcases mem_append.mp hu with hu | hu
    · exact (hbefore u hu k hk).le
    · rcases mem_cons.mp hu with rfl | hu
      · exact (Qualifies.unique hk hs).le
      · exact hafter u hu k hk

lemma select_best (p : Task) : Best minAdj (tasks ++ [p]) (select minAdj sel p) := by
  unfold select
  split
  · next rss adj hm hs =>
    have hkey : ∀ k, p.Qualifies minAdj k → minAdj ≤ adj ∧ 0 < rss ∧ k = toLex (adj, rss) := by
      rintro k ⟨adj', rss', hs', hm', hle, hpos, rfl⟩
      cases hs.symm.trans hs'
      cases hm.symm.trans hm'
      exact ⟨hle, hpos, rfl⟩
    split
    · next hlt => exact hb.keep fun k hk => by have := (hkey k hk).1; omega
    next hle =>
    split
    · next hsize => exact hb.keep fun k hk => by have := (hkey k hk).2.1; omega
    next hpos =>
    have hq : p.Qualifies minAdj (toLex (adj, rss)) := ⟨adj, rss, hs, hm, by omega, by omega, rfl⟩
    split
    · exact hb.take hq (by simp)
    next s =>
    split
    · next hlt =>
      refine hb.keep fun k hk => ⟨s, rfl, ?_⟩
      rw [(hkey k hk).2.2, Prod.Lex.toLex_le_toLex]
      exact .inl hlt
    split
    · next heq =>
      refine hb.keep fun k hk => ⟨s, rfl, ?_⟩
      rw [(hkey k hk).2.2, Prod.Lex.toLex_le_toLex]
      exact .inr heq
    next hge hne =>
    refine hb.take hq ?_
    rintro s' ⟨⟩
    rw [Prod.Lex.toLex_lt_toLex]
    omega
  · next hnone =>
    refine hb.keep ?_
    rintro k ⟨adj, rss, hs, hm, -⟩
    exact absurd hs (hnone rss adj hm)

lemma best_foldl (l : List Task) : Best minAdj (tasks ++ l) (l.foldl (select minAdj) sel) := by
  induction l generalizing tasks sel with
  | nil => rwa [append_nil]
  | cons p l ih =>
    rw [append_cons]
    exact ih (select_best hb p)

end

end

section
variable {c : Params} {x : Counters} {i : Nat}

lemma find_below_iff : (range c.arraySize).find? (c.below x) = some i ↔ c.Applies x i := by
  simp only [find?_range_eq_some, Params.below, Params.Applies, mem_range, decide_eq_true_iff,
    Bool.not_eq_true', decide_eq_false_iff_not, not_and_or, not_lt]
  tauto

lemma minAdj_of_applies (hi : c.Applies x i) : c.minAdj x = c.lowmemAdj i := by
  rw [Params.minAdj, find_below_iff.mpr hi]

lemma minAdj_of_not_applies (hnone : ∀ i, ¬ c.Applies x i) : c.minAdj x = oomAdjustMax + 1 := by
  unfold Params.minAdj
  split
  · next i hi =>
    exact absurd (find_below_iff.mp hi) (hnone i)
  · rfl

/-- The killed task is the first greatest one that qualifies for the `adj` of the first threshold
that applies. None is killed if and only if no threshold applies, there is nothing to scan, a death
is pending or no task qualifies. -/
theorem lowmemShrink_victim (c : Params) (s : State) (x : Counters) (nrToScan : Nat)
    (tasks : List Task) :
    (∀ t, (lowmemShrink c s x nrToScan tasks).2.2 = some t → ∃ i key, c.Applies x i ∧
      c.minAdj x = c.lowmemAdj i ∧ Greatest (c.lowmemAdj i) tasks t key) ∧
    ((lowmemShrink c s x nrToScan tasks).2.2 = none ↔ (∀ i, ¬ c.Applies x i) ∨ nrToScan = 0 ∨
      s.deathPending x.jiffies = true ∨
        ∃ i, c.Applies x i ∧ ∀ u ∈ tasks, ∀ k, ¬ u.Qualifies (c.lowmemAdj i) k) := by
  unfold lowmemShrink
  split
  · next hpending => simp [hpending]
  next hpending =>
  simp only
  split
  · next hstop =>
    refine ⟨fun t ht => (by cases ht), fun _ => ?_, fun _ => rfl⟩
    by_cases hi : ∃ i, c.Applies x i
    · obtain ⟨i, hi⟩ := hi
      refine .inr (hstop.imp_right fun hadj => .inr ⟨i, hi, ?_⟩)
      rintro u - k ⟨adj, rss, hs, -, hle, -⟩
      -- no task has an `oom_adj` above the maximum
      have := u.oomAdj_le adj hs
      rw [← minAdj_of_applies hi] at hle
      omega
    · exact .inl (not_exists.mp hi)
  next hgo =>
  obtain ⟨hscan, hadj⟩ := not_or.mp hgo
  obtain ⟨i, hi⟩ : ∃ i, c.Applies x i := by
    by_contra hnone
    exact hadj (minAdj_of_not_applies (not_exists.mp hnone))
  have hmin := minAdj_of_applies hi
  have hbest := best_foldl (show Best (c.minAdj x) [] none by simp [Best]) tasks
  rw [hmin] at hbest ⊢
  split
  · next hsel =>
    rw [hsel] at hbest
    exact ⟨fun t ht => (by cases ht), fun _ => .inr (.inr (.inr ⟨i, hi, hbest⟩)), fun _ => rfl⟩
  next sel hsel =>
  rw [hsel] at hbest
  refine ⟨?_, fun h => (by cases h), ?_⟩
  · rintro t ⟨⟩
    exact ⟨i, _, hi, rfl, hbest⟩
  obtain ⟨before, after, rfl, hq, -⟩ := hbest
  rintro (hnone | hzero | hdeath | ⟨j, hj, hnone⟩)
  · exact absurd hi (hnone i)
  · exact absurd hzero hscan
  · exact absurd hdeath hpending
  · rw [← minAdj_of_applies hj, hmin] at hnone
    exact absurd hq (hnone sel.task (by simp) _)

/-- The tasks killed in a sequence of calls. -/
def victims (c : Params) (s : State) : List (Counters × Nat × List Task) → List Task
  | [] => []
  | (x, n, tasks) :: calls =>
    let r := lowmemShrink c s x n tasks
    r.2.2.toList ++ victims c r.1 calls

/-- Until the killed task exits, no other one is killed for `HZ` ticks. -/
theorem victims_after_kill {s : State} {n : Nat} {tasks : List Task} {t : Task}
    (hhz : x.hz < 2 ^ 31)
    (hkill : (lowmemShrink c s x n tasks).2.2 = some t) {calls : List (Counters × Nat × List Task)}
    (hcalls : ∀ k ∈ calls, ∃ d ≤ x.hz, k.1.jiffies = wadd x.jiffies d) :
    victims c (lowmemShrink c s x n tasks).1 calls = [] := by
  obtain ⟨pid, hs⟩ : ∃ pid, (lowmemShrink c s x n tasks).1 = ⟨some pid, wadd x.jiffies x.hz⟩ := by
    grind [lowmemShrink]
  rw [hs]
  induction calls with
  | nil => rfl
  | cons k calls ih =>
    obtain ⟨d, hd, hj⟩ := hcalls k mem_cons_self
    rw [victims, lowmemShrink, if_pos]
    · exact ih fun k hk => hcalls k (mem_cons_of_mem _ hk)
    · rw [State.deathPending, hj, wsub_wadd_wadd hd (by rw [wordSize]; omega)]
      simp
      omega

theorem victims_after_kill_two : let c : Params := ⟨fun _ => 0, 1, fun _ => 9, 1⟩
    let call j := (⟨0, 0, 0, 0, j, 9⟩, 1, [⟨7, some 5, some 0, by decide⟩])
    victims c (lowmemShrink c ⟨none, 0⟩ (call 0).1 (call 0).2.1 (call 0).2.2).1 [call 2] = [] :=
  victims_after_kill (by decide) rfl (by simp; exact ⟨2, by decide, rfl⟩)

end

end Wm8850.Lowmem
