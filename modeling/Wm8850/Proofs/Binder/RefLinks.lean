import Wm8850.Binder.Refs
import Wm8850.Lib.Gap

/-! # How nodes, references and trees are linked

The links of a heap do not depend on its counts. `Linked`, of the fields `Node.key` and `Ref.key`: a
node lists the references that point to it, each once, a reference points to a node that is there,
and the trees of a process are indexes of its nodes and references. -/

namespace Wm8850.Binder

open Lib Function List

structure NodeKey where
  proc : Option Nat
  ptr : Nat
  refs : List Nat

structure RefKey where
  proc : Nat
  node : Nat
  desc : Nat

def Node.key (n : Node) : NodeKey := ⟨n.proc, n.ptr, n.refs⟩

def Ref.key (ref : Ref) : RefKey := ⟨ref.proc, ref.node, ref.desc⟩

def Heap.nodeKeys (h : Heap) (a : Nat) : Option NodeKey := (h.nodes a).map Node.key

def Heap.refKeys (h : Heap) (r : Nat) : Option RefKey := (h.refs r).map Ref.key

/-- The number of aligned addresses of the address space. There are no more references. -/
def maxRefs : Nat := 2 ^ 30

/-! ### The loops over a tree -/

section
variable {keyM : Nat → Except Fault Nat} {key : Nat → Nat} {t : BinaryTree Nat}

lemma searchTree_eq (hkey : ∀ a ∈ inorder t, keyM a = .ok (key a)) (k : Nat) :
    searchTree keyM k t = .ok (search key k t) := by
  induction t with
  | nil => rfl
  | node a l r ihl ihr =>
    have ha : keyM a = .ok (key a) := hkey a (by simp)
    have hl := ihl fun x hx => hkey x (by simp [hx])
    have hr := ihr fun x hx => hkey x (by simp [hx])
    rw [searchTree, search, ha, hl, hr]
    show (if k < key a then _ else _) = _
    split
    · rfl
    · split
      · rfl
      · rfl

lemma linkTree_eq {new : Nat}
    (hkey : ∀ a ∈ inorder t, keyM a = .ok (key a)) (hne : ∀ a ∈ inorder t, key a ≠ key new) :
    linkTree keyM (key new) new t = .ok (insertLeaf key new t) := by
  induction t with
  | nil => rfl
  | node a l r ihl ihr =>
    have ha : keyM a = .ok (key a) := hkey a (by simp)
    have hl := ihl (fun x hx => hkey x (by simp [hx])) fun x hx => hne x (by simp [hx])
    have hr := ihr (fun x hx => hkey x (by simp [hx])) fun x hx => hne x (by simp [hx])
    have hna : key a ≠ key new := hne a (by simp)
    rw [linkTree, insertLeaf, ha, hl, hr]
    show (if key new < key a then _ else if key a < key new then _ else _) = _
    split
    · rfl
    · rw [if_pos (by omega)]
      rfl

end

/-! ### The links -/

def NodeTrees (nodes : Nat → Option NodeKey) (procs : Nat → ProcTrees) : Prop :=
  ∀ p, IndexOf NodeKey.ptr (fun n => n.proc = some p) nodes (procs p).nodes

def RefTrees (refs : Nat → Option RefKey) (procs : Nat → ProcTrees) : Prop :=
  ∀ p, IndexOf RefKey.desc (fun k => k.proc = p) refs (procs p).refsByDesc ∧
    IndexOf RefKey.node (fun k => k.proc = p) refs (procs p).refsByNode

structure Linked (nodes : Nat → Option NodeKey) (refs : Nat → Option RefKey)
    (procs : Nat → ProcTrees) : Prop where
  nodup : ∀ a n, nodes a = some n → n.refs.Nodup
  mem_refs : ∀ a n, nodes a = some n → ∀ r, r ∈ n.refs ↔ ∃ k, refs r = some k ∧ k.node = a
  node_live : ∀ r k, refs r = some k → ∃ n, nodes k.node = some n
  addr : ∀ r k, refs r = some k → r % 4 = 0 ∧ r < wordSize
  desc_le : ∀ r k, refs r = some k → k.desc ≤ maxRefs
  nodeTrees : NodeTrees nodes procs
  refTrees : RefTrees refs procs

section
variable {nodes : Nat → Option NodeKey} {refs : Nat → Option RefKey}
  {procs procs' : Nat → ProcTrees}

lemma NodeTrees.remove (h : NodeTrees nodes procs) (rb : Rebalance Nat) {a : Nat} {n : NodeKey}
    (ha : nodes a = some n) {x : Option NodeKey} (hx : ∀ k ∈ x, k.proc = none)
    (hprocs : ∀ p, (procs' p).nodes =
      if n.proc = some p then rb.erase a (procs p).nodes else (procs p).nodes) :
    NodeTrees (update nodes a x) procs' := by
  intro p
  have hx' : ∀ k ∈ x, k.proc ≠ some p := by
    intro k hk
    rw [hx k hk]
    simp
  rw [hprocs p]
  split
  · exact (h p).remove rb a hx'
  next hp =>
  refine (h p).other ?_ hx'
  intro m hm
  rw [ha] at hm
  cases hm
  exact hp

lemma RefTrees.congr (h : RefTrees refs procs)
    (hprocs : ∀ p, (procs' p).refsByDesc = (procs p).refsByDesc ∧
      (procs' p).refsByNode = (procs p).refsByNode) : RefTrees refs procs' := by
  intro p
  rw [(hprocs p).1, (hprocs p).2]
  exact h p

lemma setNodes_refTrees (procs : Nat → ProcTrees) (p : Nat) (t : BinaryTree Nat) (q : Nat) :
    (update procs p { procs p with nodes := t } q).refsByDesc = (procs q).refsByDesc ∧
      (update procs p { procs p with nodes := t } q).refsByNode = (procs q).refsByNode := by
  by_cases hq : q = p
  · subst hq
    simp
  · simp [hq]

lemma setNodes_nodes (procs : Nat → ProcTrees) (p : Nat) (t : BinaryTree Nat) (q : Nat) :
    (update procs p { procs p with nodes := t } q).nodes =
      if some p = some q then t else (procs q).nodes := by
  by_cases hq : q = p
  · subst hq
    simp
  · simp [hq, Ne.symm hq]

lemma setRefTrees_nodes (procs : Nat → ProcTrees) (p : Nat) (byDesc byNode : BinaryTree Nat)
    (q : Nat) :
    (update procs p { procs p with refsByDesc := byDesc, refsByNode := byNode } q).nodes =
      (procs q).nodes := by
  by_cases hq : q = p
  · subst hq
    simp
  · simp [hq]

namespace Linked

variable (h : Linked nodes refs procs) {n : NodeKey}
include h

lemma length_refs_le {a : Nat} (ha : nodes a = some n) : n.refs.length ≤ maxRefs := by
  refine length_le_of_aligned 4 (h.nodup a n ha) ?_
  intro r hr
  obtain ⟨k, hk, -⟩ := (h.mem_refs a n ha r).mp hr
  exact h.addr r k hk

/-! ### Nodes come and go -/

lemma newNode (rb : Rebalance Nat) {a p ptr : Nat}
    (ha : nodes a = none) (hptr : ∀ b n, nodes b = some n → n.proc = some p → n.ptr ≠ ptr) :
    Linked (update nodes a (some ⟨some p, ptr, []⟩)) refs (update procs p { procs p with
        nodes :=
          rb.insertColor a
          (insertLeaf (fieldAt NodeKey.ptr (update nodes a (some ⟨some p, ptr, []⟩))) a
          (procs p).nodes) }) := by
  have hnone : ∀ r k, refs r = some k → k.node ≠ a := by
    rintro r k hk rfl
    obtain ⟨n, hn⟩ := h.node_live r k hk
    rw [ha] at hn
    cases hn
  refine ⟨?_, ?_, ?_, h.addr, h.desc_le, ?_, h.refTrees.congr (setNodes_refTrees procs p _)⟩
  · intro b n hb
    rcases update_some_eq_some.mp hb with ⟨rfl, rfl⟩ | ⟨-, hb⟩
    · exact nodup_nil
    · exact h.nodup b n hb
  · intro b n hb r
    rcases update_some_eq_some.mp hb with ⟨rfl, rfl⟩ | ⟨-, hb⟩
    · refine ⟨fun hr => absurd hr not_mem_nil, ?_⟩
      rintro ⟨k, hk, hkn⟩
      exact absurd hkn (hnone r k hk)
    · exact h.mem_refs b n hb r
  · intro r k hk
    rw [update_of_ne (hnone r k hk)]
    exact h.node_live r k hk
  intro q
  rw [setNodes_nodes]
  split
  · next hq =>
    cases hq
    exact (h.nodeTrees p).insert rb ha rfl hptr
  next hq =>
  refine (h.nodeTrees q).other (fun n hn => ?_) fun n hn => ?_
  · rw [ha] at hn
    cases hn
  · cases hn
    exact hq

lemma freeNode (rb : Rebalance Nat) {a : Nat} (ha : nodes a = some n) (hrefs : n.refs = [])
    (htrees : ∀ p, (procs' p).refsByDesc = (procs p).refsByDesc ∧
      (procs' p).refsByNode = (procs p).refsByNode) (hprocs : ∀ p, (procs' p).nodes =
      if n.proc = some p then rb.erase a (procs p).nodes else (procs p).nodes) :
    Linked (update nodes a none) refs procs' := by
  have hnone : ∀ r k, refs r = some k → k.node ≠ a := by
    intro r k hk hka
    have hmem := (h.mem_refs a n ha r).mpr ⟨k, hk, hka⟩
    rw [hrefs] at hmem
    exact absurd hmem not_mem_nil
  have hold : ∀ b m, update nodes a none b = some m → nodes b = some m := by
    intro b m hb
    exact (update_none_eq_some.mp hb).2
  refine ⟨fun b m hb => h.nodup b m (hold b m hb), fun b m hb => h.mem_refs b m (hold b m hb), ?_,
    h.addr, h.desc_le, h.nodeTrees.remove rb ha (by simp) hprocs, h.refTrees.congr htrees⟩
  intro r k hk
  rw [update_of_ne (hnone r k hk)]
  exact h.node_live r k hk

lemma ownerDies (rb : Rebalance Nat) {a p : Nat} (ha : nodes a = some n) (hp : n.proc = some p) :
    Linked (update nodes a (some { n with proc := none })) refs
      (update procs p { procs p with nodes := rb.erase a (procs p).nodes }) := by
  have hold : ∀ b m, update nodes a (some { n with proc := none }) b = some m →
      ∃ m', nodes b = some m' ∧ m.refs = m'.refs := by
    intro b m hb
    rcases update_some_eq_some.mp hb with ⟨rfl, rfl⟩ | ⟨-, hb⟩
    · exact ⟨n, ha, rfl⟩
    · exact ⟨m, hb, rfl⟩
  refine ⟨?_, ?_, ?_, h.addr, h.desc_le, ?_, h.refTrees.congr (setNodes_refTrees procs p _)⟩
  · intro b m hb
    obtain ⟨m', hm', hm⟩ := hold b m hb
    rw [hm]
    exact h.nodup b m' hm'
  · intro b m hb
    obtain ⟨m', hm', hm⟩ := hold b m hb
    rw [hm]
    exact h.mem_refs b m' hm'
  · intro r k hk
    by_cases hka : k.node = a
    · exact ⟨_, by rw [hka, update_self]⟩
    · rw [update_of_ne hka]
      exact h.node_live r k hk
  refine h.nodeTrees.remove rb ha (by simp) fun q => ?_
  rw [setNodes_nodes, hp]
  split
  · next hq =>
    cases hq
    rfl
  · rfl

/-! ### References come and go -/

/-- The entry of one reference of a node is set, and the list of the node with it. -/
theorem setRef {r : Nat} {k : RefKey} {l : List Nat} {x : Option RefKey} (hl : l.Nodup)
    (hmem : ∀ q, q ∈ l ↔ ∃ k', update refs r x q = some k' ∧ k'.node = k.node)
    (hn : nodes k.node = some n) (hr : ∀ k' ∈ refs r, k'.node = k.node)
    (hx : ∀ k' ∈ x, k' = k ∧ (r % 4 = 0 ∧ r < wordSize) ∧ k.desc ≤ maxRefs)
    (hnodes : ∀ p, (procs' p).nodes = (procs p).nodes)
    (htrees : RefTrees (update refs r x) procs') :
    Linked (update nodes k.node (some { n with refs := l })) (update refs r x) procs' := by
  have hcases : ∀ q k', update refs r x q = some k' → (q = r ∧ k' ∈ x) ∨ refs q = some k' := by
    intro q k' hk'
    by_cases hq : q = r
    · subst hq
      rw [update_self] at hk'
      exact .inl ⟨rfl, hk'⟩
    · rw [update_of_ne hq] at hk'
      exact .inr hk'
  refine ⟨?_, ?_, ?_, ?_, ?_, ?_, htrees⟩
  · intro b m hb
    rcases update_some_eq_some.mp hb with ⟨rfl, rfl⟩ | ⟨-, hb⟩
    · exact hl
    · exact h.nodup b m hb
  · intro b m hb q
    rcases update_some_eq_some.mp hb with ⟨rfl, rfl⟩ | ⟨hba, hb⟩
    · exact hmem q
    rw [h.mem_refs b m hb q]
    by_cases hq : q = r
    · subst hq
      rw [update_self]
      constructor
      · rintro ⟨k', hk', rfl⟩
        exact absurd (hr k' hk') hba
      · rintro ⟨k', hk', rfl⟩
        exact absurd (congrArg RefKey.node (hx k' hk').1) hba
    · rw [update_of_ne hq]
  · intro q k' hk'
    by_cases hkn : k'.node = k.node
    · exact ⟨_, by rw [hkn, update_self]⟩
    · rw [update_of_ne hkn]
      rcases hcases q k' hk' with ⟨-, hk'⟩ | hk'
      · exact absurd (congrArg RefKey.node (hx k' hk').1) hkn
      · exact h.node_live q k' hk'
  · intro q k' hk'
    rcases hcases q k' hk' with ⟨rfl, hmem'⟩ | hk'
    · exact (hx k' hmem').2.1
    · exact h.addr q k' hk'
  · intro q k' hk'
    rcases hcases q k' hk' with ⟨-, hk'⟩ | hk'
    · rw [(hx k' hk').1]
      exact (hx k' hk').2.2
    · exact h.desc_le q k' hk'
  · intro p
    rw [hnodes]
    exact (h.nodeTrees p).set hn Iff.rfl rfl

lemma newRef (rb : Rebalance Nat) {r : Nat} {k : RefKey}
    (hr : refs r = none) (hn : nodes k.node = some n) (haddr : r % 4 = 0 ∧ r < wordSize)
    (hdesc : k.desc ≤ maxRefs)
    (hne : ∀ q k', refs q = some k' → k'.proc = k.proc → k'.desc ≠ k.desc ∧ k'.node ≠ k.node) :
    Linked (update nodes k.node (some { n with refs := r :: n.refs })) (update refs r (some k))
      (update procs k.proc { procs k.proc with
        refsByNode := rb.insertColor r (insertLeaf
          (fieldAt RefKey.node (update refs r (some k))) r (procs k.proc).refsByNode)
        refsByDesc := rb.insertColor r (insertLeaf
          (fieldAt RefKey.desc (update refs r (some k))) r (procs k.proc).refsByDesc) }) := by
  have hnotin : r ∉ n.refs := by
    intro hmem
    obtain ⟨k', hk', -⟩ := (h.mem_refs _ n hn r).mp hmem
    rw [hr] at hk'
    cases hk'
  refine h.setRef (nodup_cons.mpr ⟨hnotin, h.nodup _ n hn⟩) ?_ hn (by simp [hr])
    (by simp [haddr, hdesc]) (setRefTrees_nodes procs k.proc _ _) ?_
  · intro q
    rw [mem_cons, h.mem_refs _ n hn q]
    by_cases hq : q = r
    · subst hq
      simp
    · simp [hq]
  intro p
  by_cases hp : p = k.proc
  · subst hp
    rw [update_self]
    exact ⟨(h.refTrees k.proc).1.insert rb hr rfl fun q k' hk' hp => (hne q k' hk' hp).1,
      (h.refTrees k.proc).2.insert rb hr rfl fun q k' hk' hp => (hne q k' hk' hp).2⟩
  rw [update_of_ne hp]
  have hother : ∀ k' ∈ some k, ¬ k'.proc = p := by
    intro k' hk'
    cases hk'
    exact Ne.symm hp
  exact ⟨(h.refTrees p).1.other (by simp [hr]) hother, (h.refTrees p).2.other (by simp [hr]) hother⟩

lemma deleteRef (rb : Rebalance Nat) {r : Nat} {k : RefKey}
    (hr : refs r = some k) (hn : nodes k.node = some n) :
    Linked (update nodes k.node (some { n with refs := n.refs.erase r })) (update refs r none)
      (update procs k.proc { procs k.proc with
        refsByDesc := rb.erase r (procs k.proc).refsByDesc
        refsByNode := rb.erase r (procs k.proc).refsByNode }) := by
  refine h.setRef ((h.nodup _ n hn).erase r) ?_ hn (by simp [hr]) (by simp)
    (setRefTrees_nodes procs k.proc _ _) ?_
  · intro q
    rw [(h.nodup _ n hn).mem_erase_iff, h.mem_refs _ n hn q]
    by_cases hq : q = r
    · subst hq
      simp
    · simp [hq]
  intro p
  by_cases hp : p = k.proc
  · subst hp
    rw [update_self]
    exact ⟨(h.refTrees k.proc).1.remove rb r (by simp), (h.refTrees k.proc).2.remove rb r (by simp)⟩
  rw [update_of_ne hp]
  have hother : ∀ k', refs r = some k' → ¬ k'.proc = p := by
    intro k' hk'
    rw [hr] at hk'
    cases hk'
    exact Ne.symm hp
  exact ⟨(h.refTrees p).1.other hother (by simp), (h.refTrees p).2.other hother (by simp)⟩

end Linked

end

end Wm8850.Binder
