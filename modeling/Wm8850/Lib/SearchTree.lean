import Mathlib.Data.List.Pairwise
import Mathlib.Data.List.Perm.Basic
import Mathlib.Data.Tree.Basic
import Mathlib.Order.Nat

/-! # Search trees by a key that is not stored

The values of a tree are pointers, and the key of a value is computed when it is looked at.
`insertLeaf` hangs a new leaf to the right of equal keys, `fit` looks for the smallest key not below
a bound; they need the values in the order of their keys (`Ordered`).

`Indexes`: the tree has the values with some property, and `search` finds each by its key. `IndexOf`
is an index of the objects of a heap. `Rebalance` has the two operations of the balancing library,
which keep the sequence of the values. -/

namespace Wm8850.Lib

open List

section
variable {α : Type} {key : α → Nat} {a : α} {t : BinaryTree α} {k : Nat}

/-- The elements from left to right. -/
def inorder : BinaryTree α → List α
  | .nil => []
  | .node a l r => inorder l ++ a :: inorder r

@[simp] lemma inorder_nil : inorder (.nil : BinaryTree α) = [] := rfl

@[simp] lemma inorder_node (a : α) (l r : BinaryTree α) :
    inorder (.node a l r) = inorder l ++ a :: inorder r := rfl

def Ordered (key : α → Nat) (t : BinaryTree α) : Prop :=
  (inorder t).Pairwise fun a b => key a ≤ key b

lemma ordered_node {l r : BinaryTree α} : Ordered key (.node a l r) ↔
    Ordered key l ∧ Ordered key r ∧
      (∀ x ∈ inorder l, key x ≤ key a) ∧ ∀ x ∈ inorder r, key a ≤ key x := by
  unfold Ordered
  rw [inorder_node, pairwise_append, pairwise_cons]
  constructor
  · rintro ⟨hl, ⟨ha, hr⟩, hlr⟩
    exact ⟨hl, hr, fun x hx => hlr x hx a mem_cons_self, ha⟩
  rintro ⟨hl, hr, hla, har⟩
  refine ⟨hl, ⟨har, hr⟩, ?_⟩
  intro x hx y hy
  rcases mem_cons.mp hy with rfl | hy
  · exact hla x hx
  · exact (hla x hx).trans (har y hy)

/-! ### A new leaf -/

def insertLeaf (key : α → Nat) (x : α) : BinaryTree α → BinaryTree α
  | .nil => .node x .nil .nil
  | .node a l r =>
    if key x < key a then .node a (insertLeaf key x l) r else .node a l (insertLeaf key x r)

lemma inorder_insertLeaf_perm (key : α → Nat) (x : α) (t : BinaryTree α) :
    (inorder (insertLeaf key x t)).Perm (x :: inorder t) := by
  induction t with
  | nil => exact List.Perm.refl _
  | node a l r ihl ihr =>
    rw [insertLeaf]
    split
    · exact ihl.append_right _
    · have hright : (a :: inorder (insertLeaf key x r)).Perm (x :: a :: inorder r) :=
        (ihr.cons a).trans (List.Perm.swap x a _)
      exact (hright.append_left _).trans perm_middle

lemma ordered_insertLeaf (h : Ordered key t) (x : α) : Ordered key (insertLeaf key x t) := by
  induction t with
  | nil => exact pairwise_singleton _ _
  | node a l r ihl ihr =>
    obtain ⟨hl, hr, hla, har⟩ := ordered_node.mp h
    rw [insertLeaf]
    split
    · next hlt =>
      refine ordered_node.mpr ⟨ihl hl, hr, ?_, har⟩
      intro y hy
      rcases mem_cons.mp ((inorder_insertLeaf_perm key x l).mem_iff.mp hy) with rfl | hy
      · exact hlt.le
      · exact hla y hy
    next hge =>
    refine ordered_node.mpr ⟨hl, ihr hr, hla, ?_⟩
    intro y hy
    rcases mem_cons.mp ((inorder_insertLeaf_perm key x r).mem_iff.mp hy) with rfl | hy
    · exact Nat.le_of_not_lt hge
    · exact har y hy

/-! ### The smallest key that is enough -/

/-- The search for a key of at least `n`, with the best value so far. It stops at a key that is
equal, and says so. -/
def fit (key : α → Nat) (n : Nat) : BinaryTree α → Option α → Option α × Bool
  | .nil, best => (best, false)
  | .node a l r, best =>
    if n < key a then fit key n l (some a)
    else if key a < n then fit key n r best
    else (some a, true)

lemma fit_some {n : Nat} (h : Ordered key t) {best : Option α}
    (hbest : ∀ b ∈ best, n < key b ∧ ∀ x ∈ inorder t, key x ≤ key b) {stop : Bool}
    (hfit : fit key n t best = (some a, stop)) :
    (a ∈ inorder t ∨ best = some a) ∧ (∀ x ∈ inorder t, n ≤ key x → key a ≤ key x) ∧
      (if stop then key a = n else n < key a) := by
  induction t generalizing best with
  | nil =>
    cases hfit
    exact ⟨.inr rfl, by simp, (hbest a rfl).1⟩
  | node c l r ihl ihr =>
    obtain ⟨hl, hr, hlc, hcr⟩ := ordered_node.mp h
    rw [fit] at hfit
    split at hfit
    · next hn =>
      obtain ⟨hmem, hmin, hkey⟩ := ihl hl (by
        intro b hb
        cases hb
        exact ⟨hn, hlc⟩) hfit
      have hac : key a ≤ key c := by
        rcases hmem with hmem | hmem
        · exact hlc a hmem
        · rw [Option.some.inj hmem]
      refine ⟨.inl ?_, ?_, hkey⟩
      · rcases hmem with hmem | hmem
        · exact mem_append_left _ hmem
        · rw [← Option.some.inj hmem]
          exact mem_append_right _ mem_cons_self
      intro x hx hnx
      rcases mem_append.mp hx with hx | hx
      · exact hmin x hx hnx
      · rcases mem_cons.mp hx with rfl | hx
        · exact hac
        · exact hac.trans (hcr x hx)
    split at hfit
    · next hc =>
      obtain ⟨hmem, hmin, hkey⟩ := ihr hr (by
        intro b hb
        obtain ⟨hnb, hle⟩ := hbest b hb
        exact ⟨hnb, fun x hx => hle x (mem_append_right _ (mem_cons_of_mem _ hx))⟩)
        hfit
      refine ⟨hmem.imp_left fun hmem =>
        mem_append_right _ (mem_cons_of_mem _ hmem), ?_, hkey⟩
      intro x hx hnx
      -- the values to the left are too small
      rcases mem_append.mp hx with hx | hx
      · have := hlc x hx
        omega
      · rcases mem_cons.mp hx with rfl | hx
        · omega
        · exact hmin x hx hnx
    cases hfit
    have hkey : key a = n := by omega
    refine ⟨.inl (mem_append_right _ mem_cons_self), ?_, hkey⟩
    intro x _ hnx
    rw [hkey]
    exact hnx

/-! ### Balancing -/

/-- What a library of balanced trees does to the sequence of the values: it recolours after a leaf
was linked, and it erases a node. -/
structure Rebalance (α : Type) [DecidableEq α] where
  insertColor : α → BinaryTree α → BinaryTree α
  erase : α → BinaryTree α → BinaryTree α
  inorder_insertColor : ∀ a t, inorder (insertColor a t) = inorder t
  inorder_erase : ∀ a t, inorder (erase a t) = (inorder t).erase a

def joinTrees : BinaryTree α → BinaryTree α → BinaryTree α
  | .nil, t => t
  | .node a l r, t => .node a l (joinTrees r t)

@[simp] lemma inorder_joinTrees (s t : BinaryTree α) :
    inorder (joinTrees s t) = inorder s ++ inorder t := by
  induction s with
  | nil => rfl
  | node a l r _ ihr => simp [joinTrees, ihr]

variable [DecidableEq α]

def eraseNode (a : α) : BinaryTree α → BinaryTree α
  | .nil => .nil
  | .node b l r =>
    if a ∈ inorder l then .node b (eraseNode a l) r
    else if a = b then joinTrees l r
    else .node b l (eraseNode a r)

lemma inorder_eraseNode (a : α) (t : BinaryTree α) :
    inorder (eraseNode a t) = (inorder t).erase a := by
  induction t with
  | nil => rfl
  | node b l r ihl ihr =>
    rw [eraseNode, inorder_node]
    split
    · next hmem => rw [inorder_node, ihl, erase_append_left _ hmem]
    next hmem =>
    rw [erase_append_right _ hmem]
    split
    · next hab => rw [hab, erase_cons_head, inorder_joinTrees]
    · next hab =>
      rw [inorder_node, ihr, erase_cons_tail (by simpa using Ne.symm hab)]

/-- A tree that is never rebalanced. -/
def Rebalance.plain : Rebalance α where
  insertColor _ t := t
  erase := eraseNode
  inorder_insertColor _ _ := rfl
  inorder_erase := inorder_eraseNode

lemma Ordered.erase (h : Ordered key t) (rb : Rebalance α) (a : α) :
    Ordered key (rb.erase a t) := by
  unfold Ordered at *
  rw [rb.inorder_erase]
  exact h.sublist erase_sublist

omit [DecidableEq α] in
lemma Ordered.congr {key' : α → Nat} (h : Ordered key t)
    (hkey : ∀ a ∈ inorder t, key' a = key a) : Ordered key' t := by
  refine List.Pairwise.imp_of_mem ?_ h
  intro a b ha hb hab
  rw [hkey a ha, hkey b hb]
  exact hab

/-! ### A tree as an index -/

def search (key : α → Nat) (k : Nat) : BinaryTree α → Option α
  | .nil => none
  | .node a l r =>
    if k < key a then search key k l
    else if key a < k then search key k r
    else some a

structure Indexes (live : α → Prop) (key : α → Nat) (t : BinaryTree α) : Prop where
  mem_iff : ∀ a, a ∈ inorder t ↔ live a
  sorted : (inorder t).Pairwise fun a b => key a < key b

omit [DecidableEq α] in
lemma search_eq_some_iff (h : (inorder t).Pairwise fun a b => key a < key b) :
    search key k t = some a ↔ a ∈ inorder t ∧ key a = k := by
  induction t with
  | nil => simp [search]
  | node c l r ihl ihr =>
    rw [inorder_node, pairwise_append, pairwise_cons] at h
    obtain ⟨hl, ⟨hcr, hr⟩, hlr⟩ := h
    have hlc : ∀ x ∈ inorder l, key x < key c := fun x hx => hlr x hx c mem_cons_self
    rw [search, inorder_node, mem_append, mem_cons]
    split
    · next hk =>
      rw [ihl hl]
      constructor
      · rintro ⟨hmem, hka⟩
        exact ⟨.inl hmem, hka⟩
      rintro ⟨hmem | rfl | hmem, hka⟩
      · exact ⟨hmem, hka⟩
      · omega
      · have := hcr a hmem
        omega
    split
    · next hk =>
      rw [ihr hr]
      constructor
      · rintro ⟨hmem, hka⟩
        exact ⟨.inr (.inr hmem), hka⟩
      rintro ⟨hmem | rfl | hmem, hka⟩
      · have := hlc a hmem
        omega
      · omega
      · exact ⟨hmem, hka⟩
    constructor
    · intro hca
      cases hca
      exact ⟨.inr (.inl rfl), by omega⟩
    rintro ⟨hmem | rfl | hmem, hka⟩
    · have := hlc a hmem
      omega
    · rfl
    · have := hcr a hmem
      omega

namespace Indexes

variable {live live' : α → Prop} {key key' : α → Nat} {t : BinaryTree α}

omit [DecidableEq α] in
lemma search_eq (h : Indexes live key t) (ha : live a) : search key (key a) t = some a :=
  (search_eq_some_iff h.sorted).mpr ⟨(h.mem_iff a).mpr ha, rfl⟩

omit [DecidableEq α] in
lemma of_search (h : Indexes live key t) (hs : search key k t = some a) : live a ∧ key a = k := by
  obtain ⟨hmem, hk⟩ := (search_eq_some_iff h.sorted).mp hs
  exact ⟨(h.mem_iff a).mp hmem, hk⟩

omit [DecidableEq α] in
lemma congr (h : Indexes live key t) (hlive : ∀ a, live' a ↔ live a)
    (hkey : ∀ a, live a → key' a = key a) : Indexes live' key' t := by
  refine ⟨fun a => (h.mem_iff a).trans (hlive a).symm, List.Pairwise.imp_of_mem ?_ h.sorted⟩
  intro a b ha hb hab
  rw [hkey a ((h.mem_iff a).mp ha), hkey b ((h.mem_iff b).mp hb)]
  exact hab

lemma insert (h : Indexes live key t) (rb : Rebalance α) {x : α}
    (hkey : ∀ a, live a → key a ≠ key x) :
    Indexes (fun a => a = x ∨ live a) key (rb.insertColor x (insertLeaf key x t)) := by
  have hperm := inorder_insertLeaf_perm key x t
  constructor
  · intro a
    rw [rb.inorder_insertColor, hperm.mem_iff, mem_cons, h.mem_iff]
  -- the order is the one of `insertLeaf`, and the new key is not there yet
  rw [rb.inorder_insertColor]
  have hle : Ordered key (insertLeaf key x t) :=
    ordered_insertLeaf (h.sorted.imp fun hab => hab.le) x
  have hne : (inorder (insertLeaf key x t)).Pairwise fun a b => key a ≠ key b := by
    refine hperm.symm.pairwise ?_ fun hab => Ne.symm hab
    refine pairwise_cons.mpr ⟨?_, h.sorted.imp fun hab => hab.ne⟩
    intro a ha
    exact (hkey a ((h.mem_iff a).mp ha)).symm
  exact hle.imp₂ (fun a b hab hab' => lt_of_le_of_ne hab hab') hne

lemma erase (h : Indexes live key t) (rb : Rebalance α) (x : α) :
    Indexes (fun a => a ≠ x ∧ live a) key (rb.erase x t) := by
  have hnodup : (inorder t).Nodup := h.sorted.imp fun hab heq => hab.ne (congrArg key heq)
  constructor
  · intro a
    rw [rb.inorder_erase, hnodup.mem_erase_iff, h.mem_iff]
  · rw [rb.inorder_erase]
    exact h.sorted.sublist erase_sublist

end Indexes

end

/-! ### An index of objects -/

section
variable {α : Type} {field : α → Nat} {owns : α → Prop} {objects : Nat → Option α}

def fieldAt (field : α → Nat) (objects : Nat → Option α) (a : Nat) : Nat := (objects a).elim 0 field

lemma fieldAt_of_eq {a : Nat} {x : α} (h : objects a = some x) :
    fieldAt field objects a = field x := by
  simp [fieldAt, h]

lemma fieldAt_update (a : Nat) (x : α) :
    fieldAt field (Function.update objects a (some x)) a = field x := by
  simp [fieldAt]

lemma fieldAt_update_of_ne {a b : Nat} (h : b ≠ a) (x : Option α) :
    fieldAt field (Function.update objects a x) b = fieldAt field objects b := by
  simp [fieldAt, Function.update_of_ne h]

def IndexOf (field : α → Nat) (owns : α → Prop) (objects : Nat → Option α) (t : BinaryTree Nat) :
    Prop :=
  Indexes (fun a => ∃ x, objects a = some x ∧ owns x) (fieldAt field objects) t

namespace IndexOf

variable {t : BinaryTree Nat} {a : Nat}

section
variable (h : IndexOf field owns objects t)
include h

lemma insert (rb : Rebalance Nat) (ha : objects a = none) {x : α}
    (hx : owns x) (hne : ∀ b y, objects b = some y → owns y → field y ≠ field x) :
    IndexOf field owns (Function.update objects a (some x)) (rb.insertColor a
      (insertLeaf (fieldAt field (Function.update objects a (some x))) a t)) := by
  have hold : ∀ b, (∃ y, objects b = some y ∧ owns y) → b ≠ a := by
    rintro b ⟨y, hy, -⟩ rfl
    rw [ha] at hy
    cases hy
  have htree : Indexes (fun b => ∃ y, objects b = some y ∧ owns y)
      (fieldAt field (Function.update objects a (some x))) t :=
    Indexes.congr h (fun b => Iff.rfl) fun b hb => fieldAt_update_of_ne (hold b hb) _
  refine (htree.insert rb ?_).congr ?_ fun _ _ => rfl
  · rintro b ⟨y, hy, hyo⟩
    rw [fieldAt_update_of_ne (hold b ⟨y, hy, hyo⟩), fieldAt_of_eq hy, fieldAt_update]
    exact hne b y hy hyo
  intro b
  by_cases hb : b = a
  · subst hb
    simp [hx]
  · simp [hb]

lemma remove (rb : Rebalance Nat) (a : Nat) {y : Option α}
    (hy : ∀ x ∈ y, ¬ owns x) : IndexOf field owns (Function.update objects a y) (rb.erase a t) := by
  refine (Indexes.erase h rb a).congr ?_ fun b hb => fieldAt_update_of_ne hb.1 y
  intro b
  by_cases hb : b = a
  · subst hb
    simpa using hy
  · simp [hb]

lemma other (ha : ∀ x, objects a = some x → ¬ owns x) {y : Option α} (hy : ∀ x ∈ y, ¬ owns x) :
    IndexOf field owns (Function.update objects a y) t := by
  have hold : ∀ b, (∃ x, objects b = some x ∧ owns x) → b ≠ a := by
    rintro b ⟨x, hx, hxo⟩ rfl
    exact ha x hx hxo
  refine Indexes.congr h ?_ fun b hb => fieldAt_update_of_ne (hold b hb) y
  intro b
  by_cases hb : b = a
  · subst hb
    constructor
    · rintro ⟨x, hx, hxo⟩
      rw [Function.update_self] at hx
      exact absurd hxo (hy x hx)
    · exact fun hx => absurd rfl (hold b hx)
  · rw [Function.update_of_ne hb]

lemma set {x y : α} (ha : objects a = some x) (howns : owns y ↔ owns x)
    (hfield : field y = field x) :
    IndexOf field owns (Function.update objects a (some y)) t := by
  refine Indexes.congr h ?_ ?_
  · intro b
    by_cases hb : b = a
    · subst hb
      simp [ha, howns]
    · rw [Function.update_of_ne hb]
  intro b _
  by_cases hb : b = a
  · subst hb
    rw [fieldAt_update, fieldAt_of_eq ha, hfield]
  · rw [fieldAt_update_of_ne hb]

end

end IndexOf

end

end Wm8850.Lib
