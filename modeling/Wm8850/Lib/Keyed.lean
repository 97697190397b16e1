import Mathlib.Data.List.Nodup

/-! # Lists of records that are addressed by a key

A linked list of kernel objects is a list of records, and the address of an object is its key. When
the keys are distinct, a successful `findKey` splits the list (`findKey_split`), and the other
operations act at that point of the split and nowhere else. -/

namespace Wm8850.Lib

open List

section
variable {α κ : Type} [DecidableEq κ] (key : α → κ)

/-- The first element with the key. -/
def findKey (k : κ) (l : List α) : Option α := l.find? fun a => decide (key a = k)

def updateKey (k : κ) (f : α → α) : List α → List α
  | [] => []
  | a :: l => if key a = k then f a :: l else a :: updateKey k f l

/-- Without the first element with the key. -/
def eraseKey (k : κ) (l : List α) : List α := l.eraseP fun a => decide (key a = k)

/-- `list_add_tail` in front of the entry at `next`. `none` is the list head. -/
def insertBefore (next : Option κ) (x : α) : List α → List α
  | [] => [x]
  | a :: l => if next = some (key a) then x :: a :: l else a :: insertBefore next x l

def insertAfter (k : κ) (x : α) : List α → List α
  | [] => []
  | a :: l => if key a = k then a :: x :: l else a :: insertAfter k x l

def nextOf (k : κ) : List α → Option α
  | [] => none
  | a :: l => if key a = k then l.head? else nextOf k l

def prevOf (k : κ) : List α → Option α
  | a :: b :: l => if key b = k then some a else prevOf k (b :: l)
  | _ => none

variable {key} {k : κ} {l pre post : List α} {a x : α} {f : α → α} {β : Type}

lemma findKey_some (h : findKey key k l = some a) : a ∈ l ∧ key a = k := by
  refine ⟨mem_of_find?_eq_some h, ?_⟩
  simpa using find?_some h

lemma findKey_eq_none : findKey key k l = none ↔ ∀ a ∈ l, key a ≠ k := by
  simp [findKey]

lemma findKey_first (h : findKey key k l = some a) :
    ∃ pre post, l = pre ++ a :: post ∧ key a = k ∧ ∀ x ∈ pre, key x ≠ k := by
  obtain ⟨hk, pre, post, hl, hpre⟩ := find?_eq_some_iff_append.mp h
  exact ⟨pre, post, hl, by simpa using hk, by simpa using hpre⟩

lemma findKey_of_mem (hnd : (l.map key).Nodup) (ha : a ∈ l) : findKey key (key a) l = some a := by
  induction l with
  | nil => simp at ha
  | cons b l ih =>
    rw [map_cons, nodup_cons] at hnd
    rcases mem_cons.mp ha with rfl | ha
    · simp [findKey]
    · have hne : key b ≠ key a := fun h => hnd.1 (h ▸ mem_map_of_mem ha)
      rw [findKey, find?_cons_of_neg (by simpa using hne)]
      exact ih hnd.2 ha

omit [DecidableEq κ] in
lemma exists_split (hnd : (l.map key).Nodup) (ha : a ∈ l) :
    ∃ pre post, l = pre ++ a :: post ∧ (∀ x ∈ pre, key x ≠ key a) ∧ ∀ x ∈ post, key x ≠ key a := by
  obtain ⟨pre, post, rfl⟩ := append_of_mem ha
  refine ⟨pre, post, rfl, fun x hx h => ?_, fun x hx h => ?_⟩
  all_goals
    rw [map_append, map_cons, nodup_append] at hnd
  · exact hnd.2.2 (key x) (mem_map_of_mem hx) (key a) (by simp) h
  · exact (nodup_cons.mp hnd.2.1).1 (h ▸ mem_map_of_mem hx)

lemma findKey_split (hnd : (l.map key).Nodup) (h : findKey key k l = some a) :
    ∃ pre post, l = pre ++ a :: post ∧ key a = k ∧ (∀ x ∈ pre, key x ≠ k) ∧
      ∀ x ∈ post, key x ≠ k := by
  obtain ⟨ha, rfl⟩ := findKey_some h
  obtain ⟨pre, post, hl, hpre, hpost⟩ := exists_split hnd ha
  exact ⟨pre, post, hl, rfl, hpre, hpost⟩

/-! ### Writing through an address -/

lemma updateKey_of_forall_ne (h : ∀ a ∈ l, key a ≠ k) : updateKey key k f l = l := by
  induction l with
  | nil => rfl
  | cons a l ih =>
    rw [updateKey, if_neg (h a (by simp)), ih fun x hx => h x (by simp [hx])]

lemma updateKey_split (hk : key a = k) (hpre : ∀ x ∈ pre, key x ≠ k) :
    updateKey key k f (pre ++ a :: post) = pre ++ f a :: post := by
  induction pre with
  | nil => simp [updateKey, hk]
  | cons b pre ih =>
    rw [cons_append, updateKey, if_neg (hpre b (by simp)), ih fun x hx => hpre x (by simp [hx])]
    rfl

lemma map_updateKey_of_eq {g : α → β}
    (hf : ∀ a, g (f a) = g a) (l : List α) : (updateKey key k f l).map g = l.map g := by
  induction l with
  | nil => rfl
  | cons a l ih =>
    unfold updateKey
    split
    · simp [hf]
    · simp [ih]

lemma updateKey_append (l l' : List α) : updateKey key k f (l ++ l')
      = if ∃ a ∈ l, key a = k then updateKey key k f l ++ l' else l ++ updateKey key k f l' := by
  induction l with
  | nil => simp
  | cons a l ih =>
    rw [cons_append, updateKey, updateKey]
    by_cases hk : key a = k
    · simp [hk]
    · rw [if_neg hk, ih]
      simp only [mem_cons, exists_eq_or_imp, hk, false_or]
      split <;> rfl

lemma flatMap_updateKey {g : β → List α} (l : List β) (hnd : ((l.flatMap g).map key).Nodup) :
    (l.flatMap fun b => updateKey key k f (g b)) = updateKey key k f (l.flatMap g) := by
  induction l with
  | nil => rfl
  | cons b l ih =>
    rw [flatMap_cons, map_append, nodup_append] at hnd
    rw [flatMap_cons, flatMap_cons, updateKey_append, ih hnd.2.1]
    split
    · next h =>
      obtain ⟨a, ha, hk⟩ := h
      have hrest : ∀ x ∈ l.flatMap g, key x ≠ k := by
        intro x hx hkx
        exact hnd.2.2 (key a) (mem_map_of_mem ha) (key x) (mem_map_of_mem hx) (by rw [hk, hkx])
      rw [updateKey_of_forall_ne hrest]
    · next h =>
      have hhead : ∀ a ∈ g b, key a ≠ k := fun a ha hk => h ⟨a, ha, hk⟩
      rw [updateKey_of_forall_ne hhead]

lemma mem_of_mem_updateKey (h : x ∈ updateKey key k f l) :
    (∃ a ∈ l, key a = k ∧ f a = x) ∨ x ∈ l := by
  induction l with
  | nil => simp [updateKey] at h
  | cons a l ih =>
    unfold updateKey at h
    split at h
    · next hk =>
      rcases mem_cons.mp h with rfl | h
      · exact .inl ⟨a, by simp, hk, rfl⟩
      · exact .inr (by simp [h])
    rcases mem_cons.mp h with rfl | h
    · exact .inr (by simp)
    · rcases ih h with ⟨b, hb, hk, rfl⟩ | h
      · exact .inl ⟨b, by simp [hb], hk, rfl⟩
      · exact .inr (by simp [h])

/-! ### Unlinking -/

lemma eraseKey_split (hk : key a = k)
    (hpre : ∀ x ∈ pre, key x ≠ k) : eraseKey key k (pre ++ a :: post) = pre ++ post := by
  unfold eraseKey
  rw [eraseP_append_right _ (by simpa using hpre), eraseP_cons_of_pos (by simpa using hk)]

variable (key) in
lemma eraseKey_sublist (k : κ) (l : List α) : (eraseKey key k l).Sublist l := eraseP_sublist

lemma eraseKey_of_forall_ne (h : ∀ a ∈ l, key a ≠ k) : eraseKey key k l = l :=
  eraseP_of_forall_not (by simpa using h)

variable (key) in
lemma length_eraseKey_of_mem (ha : a ∈ l) : (eraseKey key (key a) l).length + 1 = l.length := by
  have h := length_eraseP_of_mem ha (p := fun x => decide (key x = key a)) (by simp)
  have hpos : 0 < l.length := length_pos_of_mem ha
  unfold eraseKey
  omega

lemma perm_cons_eraseKey (h : findKey key k l = some a)
    (hnd : (l.map key).Nodup) : l.Perm (a :: eraseKey key k l) := by
  obtain ⟨pre, post, rfl, hk, hpre, -⟩ := findKey_split hnd h
  rw [eraseKey_split hk hpre]
  exact perm_middle

lemma updateKey_perm (h : findKey key k l = some a)
    (hnd : (l.map key).Nodup) : (updateKey key k f l).Perm (f a :: eraseKey key k l) := by
  obtain ⟨pre, post, rfl, hk, hpre, -⟩ := findKey_split hnd h
  rw [eraseKey_split hk hpre, updateKey_split hk hpre]
  exact perm_middle

lemma mem_eraseKey_of_ne (hk : key x ≠ k) : x ∈ eraseKey key k l ↔ x ∈ l :=
  mem_eraseP_of_neg (by simpa using hk)

lemma mem_eraseKey (hnd : (l.map key).Nodup) : x ∈ eraseKey key k l ↔ x ∈ l ∧ key x ≠ k := by
  cases h : findKey key k l with
  | none =>
    rw [findKey_eq_none] at h
    rw [eraseKey_of_forall_ne h]
    exact ⟨fun hx => ⟨hx, h x hx⟩, And.left⟩
  | some a =>
    obtain ⟨pre, post, rfl, hk, hpre, hpost⟩ := findKey_split hnd h
    rw [eraseKey_split hk hpre]
    simp only [mem_append, mem_cons]
    constructor
    · rintro (hx | hx)
      · exact ⟨.inl hx, hpre x hx⟩
      · exact ⟨.inr (.inr hx), hpost x hx⟩
    · rintro ⟨hx | rfl | hx, hne⟩
      · exact .inl hx
      · exact absurd hk hne
      · exact .inr hx

/-! ### Linking -/

lemma insertBefore_none (x : α) (l : List α) : insertBefore key none x l = l ++ [x] := by
  induction l with
  | nil => rfl
  | cons a l ih => simp [insertBefore, ih]

lemma insertBefore_split (hpre : ∀ y ∈ pre, key y ≠ key a) :
    insertBefore key (some (key a)) x (pre ++ a :: post) = pre ++ x :: a :: post := by
  induction pre with
  | nil => simp [insertBefore]
  | cons b pre ih =>
    have hb : key b ≠ key a := hpre b (by simp)
    rw [cons_append, insertBefore, if_neg (by simpa using hb.symm),
      ih fun y hy => hpre y (by simp [hy])]
    rfl

lemma mem_insertBefore {next : Option κ} {y : α} : y ∈ insertBefore key next x l ↔
    y = x ∨ y ∈ l := by
  induction l with
  | nil => simp [insertBefore]
  | cons a l ih =>
    unfold insertBefore
    split
    · simp
    · simp only [mem_cons]
      tauto

lemma insertBefore_perm (next : Option κ) (x : α) (l : List α) :
    (insertBefore key next x l).Perm (x :: l) := by
  induction l with
  | nil => exact List.Perm.refl _
  | cons a l ih =>
    unfold insertBefore
    split
    · exact List.Perm.refl _
    · exact (ih.cons a).trans (List.Perm.swap x a l)

lemma insertAfter_split (hk : key a = k) (hpre : ∀ y ∈ pre, key y ≠ k) :
    insertAfter key k x (pre ++ a :: post) = pre ++ a :: x :: post := by
  induction pre with
  | nil => simp [insertAfter, hk]
  | cons b pre ih =>
    rw [cons_append, insertAfter, if_neg (hpre b (by simp)), ih fun y hy => hpre y (by simp [hy])]
    rfl

/-! ### Neighbours -/

lemma nextOf_split (hk : key a = k)
    (hpre : ∀ x ∈ pre, key x ≠ k) : nextOf key k (pre ++ a :: post) = post.head? := by
  induction pre with
  | nil => simp [nextOf, hk]
  | cons b pre ih =>
    rw [cons_append, nextOf, if_neg (hpre b (by simp)), ih fun x hx => hpre x (by simp [hx])]

lemma prevOf_first (a : α) (h : ∀ x ∈ l, key x ≠ k) : prevOf key k (a :: l) = none := by
  induction l generalizing a with
  | nil => rfl
  | cons b l ih =>
    rw [prevOf, if_neg (h b (by simp))]
    exact ih b fun x hx => h x (by simp [hx])

lemma prevOf_split {b : α} (hk : key b = k) (hpre : ∀ x ∈ pre, key x ≠ k) (ha : key a ≠ k) :
    prevOf key k (pre ++ a :: b :: post) = some a := by
  induction pre with
  | nil => rw [nil_append, prevOf, if_pos hk]
  | cons c pre ih =>
    have hrest := ih fun x hx => hpre x (by simp [hx])
    -- the entry behind `c` is not the one that is looked for
    cases pre with
    | nil => rw [cons_append, nil_append, prevOf, if_neg ha]; exact hrest
    | cons d pre =>
      rw [cons_append, cons_append, prevOf, if_neg (hpre d (by simp))]
      exact hrest

end

/-! ### Tables -/

section
variable {κ β : Type} [DecidableEq κ] {f : κ → Option β} {a b : κ} {x y : β}

lemma update_some_eq_some :
    Function.update f a (some y) b = some x ↔ (b = a ∧ x = y) ∨ (b ≠ a ∧ f b = some x) := by
  by_cases hb : b = a
  · subst hb
    simp [eq_comm]
  · simp [hb]

lemma update_none_eq_some : Function.update f a none b = some x ↔ b ≠ a ∧ f b = some x := by
  by_cases hb : b = a
  · subst hb
    simp
  · simp [hb]

end

end Wm8850.Lib
