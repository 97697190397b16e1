import Mathlib.Data.BitVec

/-! # A value kept in two slots

An update invalidates the slot that is not in use, writes it, and then marks the other slot as
obsolete. `choose` is the slot that a reader takes, by the grades. `Stage` lists the points where an
update can stop. -/

namespace Wm8850.Lib

open Nat

inductive Grade where
  | active
  | obsolete
  | bad
deriving Repr, DecidableEq

section
variable {α : Type} (grade : α → Grade) {c c' : Bool → Option α} {i : Bool} {new : α}

/-- The slot that a reader takes. Slot `true` is read only if the value in `false` is not active.
Without an active value an obsolete one is taken, the later one if there are two. A slot that cannot
be read ends the search. -/
def choose (c : Bool → Option α) : Option Bool :=
  match (c false).map grade, (c true).map grade with
  | none, _ => none
  | some .active, _ => some false
  | some _, none => none
  | some _, some .active => some true
  | some _, some .obsolete => some true
  | some .obsolete, some .bad => some false
  | some .bad, some .bad => none

lemma exists_of_choose (h : choose grade c = some i) : ∃ e, c i = some e ∧ grade e ≠ .bad := by
  unfold choose at h
  cases h0 : c false with
  | none => simp [h0] at h
  | some e0 =>
    cases h1 : c true with
    | none =>
      cases hg0 : grade e0 <;> simp [h0, h1, hg0] at h
      subst h
      exact ⟨e0, h0, by simp [hg0]⟩
    | some e1 =>
      cases hg0 : grade e0 <;> cases hg1 : grade e1 <;> simp [h0, h1, hg0, hg1] at h <;>
        subst h
      all_goals first
        | exact ⟨e0, h0, by simp [hg0]⟩
        | exact ⟨e1, h1, by simp [hg1]⟩

lemma choose_of_bad (h : choose grade c = some i)
    (hsame : c' i = c i) {e : α} (he : c' (!i) = some e) (hbad : grade e = .bad) :
    choose grade c' = some i := by
  obtain ⟨v, hv, hgood⟩ := exists_of_choose grade h
  rw [hv] at hsame
  cases i with
  | false =>
    have hother : c' true = some e := he
    cases hg : grade v with
    | active => simp [choose, hsame, hg]
    | obsolete => simp [choose, hsame, hother, hg, hbad]
    | bad => exact absurd hg hgood
  | true =>
    have hother : c' false = some e := he
    cases hg : grade v with
    | active => simp [choose, hsame, hother, hg, hbad]
    | obsolete => simp [choose, hsame, hother, hg, hbad]
    | bad => exact absurd hg hgood

lemma choose_of_active {v : α} (hv : c i = some v) (hnew : c (!i) = some new)
    (hactive : grade new = .active) :
    choose grade c = some (!i) ∨ choose grade c = some i ∧ grade v = .active := by
  cases i with
  | false =>
    have hother : c true = some new := hnew
    cases hg : grade v with
    | active => exact .inr ⟨by simp [choose, hv, hg], rfl⟩
    | obsolete => exact .inl (by simp [choose, hv, hother, hg, hactive])
    | bad => exact .inl (by simp [choose, hv, hother, hg, hactive])
  | true =>
    have hother : c false = some new := hnew
    exact .inl (by simp [choose, hother, hactive])

inductive Stage (retire : α → α) (c : Bool → Option α) (i : Bool) (new : α) :
    (Bool → Option α) → Prop where
  | untouched : Stage retire c i new c
  | torn {c' : Bool → Option α} {e : α} (hsame : c' i = c i) (he : c' (!i) = some e)
      (hbad : grade e = .bad) : Stage retire c i new c'
  | written {c' : Bool → Option α} (hsame : c' i = c i) (hnew : c' (!i) = some new) :
      Stage retire c i new c'
  | retired {c' : Bool → Option α} (hret : c' i = (c i).map retire) (hnew : c' (!i) = some new) :
      Stage retire c i new c'

variable {grade} {retire : α → α} (hretire : ∀ e, grade e ≠ .bad → grade (retire e) = .obsolete)
include hretire

lemma choose_retired (h : choose grade c = some i) (hactive : grade new = .active)
    (hret : c' i = (c i).map retire) (hnew : c' (!i) = some new) : choose grade c' = some (!i) := by
  obtain ⟨v, hv, hgood⟩ := exists_of_choose grade h
  rw [hv] at hret
  rcases choose_of_active grade hret hnew hactive with hdone | ⟨-, hv'⟩
  · exact hdone
  · rw [hretire v hgood] at hv'
    cases hv'

lemma Stage.choose_old_or_new (hstage : Stage grade retire c i new c') (h : choose grade c = some i)
    (hactive : grade new = .active) :
    choose grade c' = some i ∧ c' i = c i ∨ choose grade c' = some (!i) ∧ c' (!i) = some new := by
  cases hstage with
  | untouched => exact .inl ⟨h, rfl⟩
  | torn hsame he hbad => exact .inl ⟨choose_of_bad grade h hsame he hbad, hsame⟩
  | written hsame hnew =>
    obtain ⟨v, hv, -⟩ := exists_of_choose grade h
    rcases choose_of_active grade (hsame.trans hv) hnew hactive with hdone | ⟨hold, -⟩
    · exact .inr ⟨hdone, hnew⟩
    · exact .inl ⟨hold, hsame⟩
  | retired hret hnew => exact .inr ⟨choose_retired hretire h hactive hret hnew, hnew⟩

end

/-! ### Two copies with a version byte

An update erases and rewrites the main copy with the next version and then the mirror. A reader
takes the copy with the higher version, by a signed byte difference, and replaces the other one.
`MirrorStage` lists what an update, or a reader that is interrupted, can leave. -/

/-- The two copies, the main one for `true`. A copy that is erased is `none`. -/
abbrev Copies (α : Type) := Bool → Option (BitVec 8 × α)

section
variable {α : Type} {v : BitVec 8} {old new : α} {c : Copies α}

def Copies.put (c : Copies α) (main : Bool) (x : Option (BitVec 8 × α)) : Copies α := fun i =>
  if i = main then x else c i

@[simp] lemma Copies.put_same (c : Copies α) (main : Bool) (x : Option (BitVec 8 × α)) :
    c.put main x main = x := if_pos rfl

@[simp] lemma Copies.put_not (c : Copies α) (main : Bool) (x : Option (BitVec 8 × α)) :
    c.put main x (!main) = c (!main) := if_neg (by simp)

lemma forall_copies {P : Bool → Prop} (main : Bool) (h : P main) (h' : P (!main)) : ∀ m, P m := by
  intro m
  by_cases hm : m = main
  · rw [hm]
    exact h
  · rw [show m = !main by cases m <;> cases main <;> simp_all]
    exact h'

def Copies.choose (c : Copies α) : Option Bool :=
  match c true, c false with
  | none, none => none
  | none, some _ => some false
  | some _, none => some true
  | some t, some m => if t.1 = m.1 then some true else some (decide (0 < (t.1 - m.1).toInt))

inductive MirrorStage (v : BitVec 8) (old new : α) : Copies α → Prop where
  | before {c : Copies α} :
      c true = some (v, old) → c false = some (v, old) → MirrorStage v old new c
  | mainErased {c : Copies α} :
      c true = none → c false = some (v, old) → MirrorStage v old new c
  | mainWritten {c : Copies α} :
      c true = some (v + 1, new) → c false = some (v, old) → MirrorStage v old new c
  | mirrorErased {c : Copies α} :
      c true = some (v + 1, new) → c false = none → MirrorStage v old new c
  | after {c : Copies α} :
      c true = some (v + 1, new) → c false = some (v + 1, new) → MirrorStage v old new c

lemma MirrorStage.old_or_new (h : MirrorStage v old new c) {m : Bool} {x : BitVec 8 × α}
    (hx : c m = some x) :
    x = (v, old) ∨ x = (v + 1, new) := by
  cases h <;> cases m <;> simp_all

lemma succ_newer (v : BitVec 8) : v + 1 ≠ v ∧ 0 < (v + 1 - v).toInt := by
  revert v
  decide

/-- The reader takes the old value or the new one, and the other copy is the same, or it may be
erased and written. -/
theorem MirrorStage.choose (h : MirrorStage v old new c) :
    ∃ main x, c.choose = some main ∧ c main = some x ∧ (x = (v, old) ∨ x = (v + 1, new)) ∧
      (c (!main) = some x ∧ main = true ∨
        (∀ y, c (!main) = some y → y.1 ≠ x.1) ∧ MirrorStage v old new (c.put (!main) none) ∧
          MirrorStage v old new (c.put (!main) (some x))) := by
  obtain ⟨hne, hpos⟩ := succ_newer v
  have hnew : c true = some (v + 1, new) → MirrorStage v old new (c.put false none) ∧
      MirrorStage v old new (c.put false (some (v + 1, new))) := fun ht =>
    ⟨.mirrorErased ((Copies.put_not _ false _).trans ht) (Copies.put_same _ _ _),
      .after ((Copies.put_not _ false _).trans ht) (Copies.put_same _ _ _)⟩
  cases h with
  | before ht hm =>
    exact ⟨true, _, by simp [Copies.choose, ht, hm], ht, .inl rfl, .inl ⟨hm, rfl⟩⟩
  | mainErased ht hm =>
    refine ⟨false, _, by simp [Copies.choose, ht, hm], hm, .inl rfl, .inr ⟨?_, ?_, ?_⟩⟩
    · intro y hy
      rw [Bool.not_false, ht] at hy
      cases hy
    · exact .mainErased (Copies.put_same _ _ _) ((Copies.put_not _ true _).trans hm)
    · exact .before (Copies.put_same _ _ _) ((Copies.put_not _ true _).trans hm)
  | mainWritten ht hm =>
    have hchoose : c.choose = some true := by
      rw [Copies.choose, ht, hm]
      simp only
      rw [if_neg hne, decide_eq_true hpos]
    refine ⟨true, _, hchoose, ht, .inr rfl, .inr ⟨?_, hnew ht⟩⟩
    intro y hy
    rw [Bool.not_true, hm] at hy
    cases hy
    exact hne.symm
  | mirrorErased ht hm =>
    refine ⟨true, _, by simp [Copies.choose, ht, hm], ht, .inr rfl, .inr ⟨?_, hnew ht⟩⟩
    intro y hy
    rw [Bool.not_true, hm] at hy
    cases hy
  | after ht hm =>
    exact ⟨true, _, by simp [Copies.choose, ht, hm], ht, .inr rfl, .inl ⟨hm, rfl⟩⟩

end

/-! ### The next good index in a ring -/

structure NextGood (good : Nat → Prop) (k r : Nat) : Prop where
  holds : good r
  ne : r ≠ k
  above : ∀ j, good j → k < j → k < r ∧ r ≤ j
  below : r < k → ∀ j, good j → r ≤ j

section
variable {good : Nat → Prop} {k r : Nat}

lemma NextGood.of_lt (h : NextGood good k r) {j : Nat} (hj : good j) (hlt : j < r) :
    j ≤ k ∧ k < r := by
  have hle : j ≤ k := by
    by_contra hgt
    have := (h.above j hj (by omega)).2
    omega
  by_contra hge
  have hne := h.ne
  have := h.below (by omega) j hj
  omega

lemma NextGood.unique (h : NextGood good k r) {r' : Nat} (h' : NextGood good k r') : r = r' := by
  have hne := h.ne
  have hne' := h'.ne
  rcases lt_or_gt_of_ne hne with hlt | hgt
  · have hlt' : r' < k := by
      by_contra hge
      have := h.above r' h'.holds (by omega)
      omega
    have hle := h.below hlt r' h'.holds
    have hle' := h'.below hlt' r h.holds
    omega
  · have hup := h'.above r h.holds hgt
    have hdown := h.above r' h'.holds hup.1
    omega

lemma nextGood_of_first {n : Nat} (hn : ∀ j, good j → j < n) (hk : n ≤ k) (hgood : good r)
    (hbad : ∀ j, j < r → ¬good j) : NextGood good k r where
  holds := hgood
  ne := by
    have := hn r hgood
    omega
  above := by
    intro j hj hlt
    have := hn j hj
    omega
  below := by
    intro _ j hj
    by_contra hlt
    exact hbad j (by omega) hj

lemma nextGood_of_scan {n d : Nat} (hn : ∀ j, good j → j < n) (hk : k < n) (hd : d + 1 < n)
    (hgood : good ((k + 1 + d) % n)) (hbad : ∀ i, i < d → ¬good ((k + 1 + i) % n)) :
    NextGood good k ((k + 1 + d) % n) := by
  by_cases hwrap : k + 1 + d < n
  · -- The scan ends above `k`.
    rw [mod_eq_of_lt hwrap] at hgood ⊢
    refine ⟨hgood, by omega, ?_, by omega⟩
    intro j hj hlt
    by_contra hgt
    refine hbad (j - (k + 1)) (by omega) ?_
    rw [show k + 1 + (j - (k + 1)) = j by omega, mod_eq_of_lt (hn j hj)]
    exact hj
  -- It went past the end: every index above `k` is bad, and every one below the result.
  have hmod : (k + 1 + d) % n = k + 1 + d - n := by
    rw [mod_eq_sub_mod (by omega), mod_eq_of_lt (by omega)]
  refine ⟨hgood, by omega, ?_, ?_⟩
  · intro j hj hlt
    have hjn := hn j hj
    refine absurd hj ?_
    rw [← mod_eq_of_lt hjn, show j = k + 1 + (j - (k + 1)) by omega]
    exact hbad (j - (k + 1)) (by omega)
  intro _ j hj
  by_contra hgt
  have hjn := hn j hj
  refine hbad (n + j - (k + 1)) (by omega) ?_
  rw [show k + 1 + (n + j - (k + 1)) = j + n by omega, add_mod_right, mod_eq_of_lt hjn]
  exact hj

end

end Wm8850.Lib
