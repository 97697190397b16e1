import Wm8850.Lib.Word
import Mathlib.Logic.Relation

/-! # Computations that stop where the code would go wrong

A `Checked` computation does the checks that the code leaves out and stops with a `Fault`, so the
code is safe on an input if and only if the computation does not stop. `Ensures x P`: `x` gives a
value with `P`. `Settles x C P`: `x` gives a value if and only if `C`, and then one with `P`. -/

namespace Wm8850.Lib

/-- What a computation ran into. -/
inductive Fault where
  /-- A read outside the buffer. -/
  | read (i : Nat)
  /-- A store outside the array. -/
  | store (i : Nat)
  /-- A division by 0. -/
  | divide
deriving DecidableEq, Repr

/-- A computation that stops with a fault. -/
abbrev Checked (α : Type) := Except Fault α

/-- The byte at a place of a buffer. -/
def readAt (size : Nat) (m : Bytes) (i : Nat) : Checked Nat :=
  if i < size then .ok (m i).toNat else .error (.read i)

/-- An array with one element changed. -/
def storeAt {α : Type} {n : Nat} (a : Fin n → α) (i : Nat) (f : α → α) : Checked (Fin n → α) :=
  if h : i < n then .ok (Function.update a ⟨i, h⟩ (f (a ⟨i, h⟩))) else .error (.store i)

/-- A quotient. -/
def divideBy (a b : Nat) : Checked Nat := if b = 0 then .error .divide else .ok (a / b)

/-- The fault that a computation ends with. -/
def faultOf {α : Type} : Checked α → Option Fault
  | .ok _ => none
  | .error e => some e

/-- The computation gives a value with the property. -/
def Ensures {α : Type} (x : Checked α) (P : α → Prop) : Prop := ∃ a, x = .ok a ∧ P a

/-- The computation gives a value exactly under the condition, and every value has the property. -/
structure Settles {α : Type} (x : Checked α) (C : Prop) (P : α → Prop) : Prop where
  ensures : C → Ensures x P
  needs : ∀ a, x = .ok a → C

section
variable {α β : Type} {C D : Prop} {P Q : α → Prop} {R : β → Prop} {a : α} {x y : Checked α}
  {f : α → Checked β} {i : Nat}

lemma ensures_pure (h : P a) : Ensures (pure a) P := ⟨a, rfl, h⟩

lemma Ensures.mono (h : Ensures x P) (hPQ : ∀ a, P a → Q a) : Ensures x Q := by
  obtain ⟨a, hx, ha⟩ := h
  exact ⟨a, hx, hPQ a ha⟩

lemma Ensures.bind (hx : Ensures x P) (hf : ∀ a, P a → Ensures (f a) R) : Ensures (x >>= f) R := by
  obtain ⟨a, rfl, ha⟩ := hx
  exact hf a ha

lemma ensures_readAt {size : Nat} {m : Bytes} (hi : i < size) :
    Ensures (readAt size m i) (fun b => b = (m i).toNat) :=
  ⟨_, if_pos hi, rfl⟩

lemma ensures_storeAt {n : Nat} {a : Fin n → α} {f : α → α} (hi : i < n) :
    Ensures (storeAt a i f) (fun _ => True) :=
  ⟨_, dif_pos hi, trivial⟩

/-- A loop ensures what each of its rounds keeps. -/
lemma ensures_foldlM {f : α → β → Checked α} {l : List β} (ha : P a)
    (hstep : ∀ a, ∀ b ∈ l, P a → Ensures (f a b) P) : Ensures (l.foldlM f a) P := by
  induction l generalizing a with
  | nil => exact ensures_pure ha
  | cons b l ih =>
    exact (hstep a b List.mem_cons_self ha).bind fun a' ha' =>
      ih ha' fun a b hb => hstep a b (List.mem_cons_of_mem _ hb)

lemma settles_pure (hC : C) (ha : P a) : Settles (pure a) C P :=
  ⟨fun _ => ensures_pure ha, fun _ _ => hC⟩

/-- Every computation gives a value exactly if it gives one. -/
lemma settles_self : Settles x (Ensures x fun _ => True) (fun _ => True) :=
  ⟨id, fun a ha => ⟨a, ha, trivial⟩⟩

/-- The condition may be replaced by an equivalent one. -/
lemma Settles.congr (h : Settles x C P) (hCD : C ↔ D) : Settles x D P :=
  ⟨fun hD => h.ensures (hCD.mpr hD), fun a ha => hCD.mp (h.needs a ha)⟩

lemma Settles.mono (h : Settles x C P) (hPQ : ∀ a, P a → Q a) : Settles x C Q :=
  ⟨fun hC => (h.ensures hC).mono hPQ, h.needs⟩

/-- One computation after the other. The condition has to imply the one of the first computation,
and may then use it for the rest. -/
lemma Settles.bind (hx : Settles x C P) (hDC : D → C)
    (hf : C → ∀ a, P a → Settles (f a) D R) : Settles (x >>= f) D R where
  ensures hD := (hx.ensures (hDC hD)).bind fun a ha => (hf (hDC hD) a ha).ensures hD
  needs b hb := by
    cases hrun : x with
    | error e =>
      rw [hrun] at hb
      cases hb
    | ok a =>
      have hC : C := hx.needs a hrun
      obtain ⟨a', hrun', ha⟩ := hx.ensures hC
      obtain rfl : a' = a := by
        rw [hrun] at hrun'
        exact (Except.ok.inj hrun').symm
      rw [hrun] at hb
      exact (hf hC a' ha).needs b hb

/-- A computation that always gives a value adds no condition. -/
lemma Ensures.then_settles (hx : Ensures x P) (hf : ∀ a, P a → Settles (f a) C R) :
    Settles (x >>= f) C R :=
  Settles.bind (C := True) ⟨fun _ => hx, fun _ _ => trivial⟩ (fun _ => trivial) fun _ => hf

lemma settles_readAt {size : Nat} {m : Bytes} :
    Settles (readAt size m i) (i < size) (fun b => b = (m i).toNat) where
  ensures hi := ensures_readAt hi
  needs b hb := by
    by_contra hi
    rw [readAt, if_neg hi] at hb
    cases hb

lemma settles_storeAt {n : Nat} {a : Fin n → α} {f : α → α} :
    Settles (storeAt a i f) (i < n) (fun _ => True) where
  ensures hi := ensures_storeAt hi
  needs b hb := by
    by_contra hi
    rw [storeAt, dif_neg hi] at hb
    cases hb

lemma settles_divideBy {a b : Nat} : Settles (divideBy a b) (b ≠ 0) (fun _ => True) where
  ensures hb := ⟨_, if_neg hb, trivial⟩
  needs q hq := by
    rintro rfl
    cases hq

/-- A counting loop asks for the conditions of all its rounds. -/
lemma settles_foldlM_range {f : α → Nat → Checked α} {n : Nat} {C : Nat → Prop}
    {P : Nat → α → Prop} (ha : P 0 a)
    (hstep : ∀ i < n, ∀ a, P i a → Settles (f a i) (C i) (P (i + 1))) :
    Settles ((List.range n).foldlM f a) (∀ i < n, C i) (P n) := by
  induction n with
  | zero => exact settles_pure (fun i hi => absurd hi (Nat.not_lt_zero i)) ha
  | succ n ih =>
    rw [List.range_succ, List.foldlM_append]
    refine (ih fun i hi => hstep i (by omega)).bind (fun h i hi => h i (by omega)) fun hbefore a
      ha => ?_
    refine (hstep n (Nat.lt_succ_self n) a ha).bind (fun h => h n (by omega)) fun hlast b hb => ?_
    refine settles_pure (fun i hi => ?_) hb
    obtain hlt | rfl := Nat.lt_succ_iff_lt_or_eq.mp hi
    · exact hbefore i hlt
    · exact hlast

end

/-- A property of all places of a walk is one of its first place and of the rest of the walk. -/
lemma forall_reflTransGen_iff {α : Type} {r : α → α → Prop} {p : α → Prop} {a : α} :
    (∀ c, Relation.ReflTransGen r a c → p c) ↔
      p a ∧ ∀ b, r a b → ∀ c, Relation.ReflTransGen r b c → p c := by
  constructor
  · intro h
    exact ⟨h a .refl, fun b hab c hbc => h c (.head hab hbc)⟩
  · rintro ⟨ha, hrest⟩ c hac
    obtain rfl | ⟨b, hab, hbc⟩ := hac.cases_head
    · exact ha
    · exact hrest b hab c hbc

end Wm8850.Lib
