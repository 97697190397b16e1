import Wm8850.Proofs.Binder.RefLinks

/-! # What the calls on nodes and references do

A heap is `Consistent` with the holds that are out when its objects are linked, the strong count of
a node is the number of its strong references (`Counted`), and its local counts are the numbers of
holds (`Held`). Objects keep their identity (`Extends`). This module has the calls on nodes;
`decNode_spec` says which node a call can free. -/

namespace Wm8850.Binder

open Lib Function Option Heap List

variable (rb : Rebalance Nat)

/-- There is a strong reference at the address. -/
def strongAt (refs : Nat → Option Ref) (r : Nat) : Bool :=
  match refs r with
  | some ref => decide (0 < ref.strong)
  | none => false

def Work.isNode : Work → Bool
  | .node _ => true
  | _ => false

namespace Heap

def queued (h : Heap) (l : Todo) : List Work := (h.todo l).filter fun w => !w.isNode

structure Counted (h : Heap) : Prop where
  internal : ∀ a n, h.nodes a = some n → n.internalStrongRefs = n.refs.countP (strongAt h.refs)
  count : ∀ r ref, h.refs r = some ref →
    ∀ strong, 0 ≤ ref.count strong ∧ ref.count strong ≤ intMax

structure Held (h : Heap) (holds : Bool → Nat → Nat) : Prop where
  localRefs : ∀ a n, h.nodes a = some n →
    ∀ strong, n.localRefs strong = holds strong a ∧ n.localRefs strong ≤ intMax
  gone : ∀ a, h.nodes a = none → ∀ strong, holds strong a = 0
  mgr : ∀ a, h.contextMgrNode = some a → ∀ strong, 0 < holds strong a

structure Consistent (h : Heap) (holds : Bool → Nat → Nat) : Prop where
  linked : Linked h.nodeKeys h.refKeys h.procs
  counted : h.Counted
  held : h.Held holds

structure Extends (h h' : Heap) : Prop where
  refs : ∀ r k, h.refKeys r = some k → h'.refKeys r = some k
  nodes : ∀ a n, h.nodes a = some n →
    ∃ n', h'.nodes a = some n' ∧ n'.proc = n.proc ∧ n'.ptr = n.ptr ∧ n'.cookie = n.cookie
  mgr : h'.contextMgrNode = h.contextMgrNode

/-- The links are right, whatever the counts are. -/
def Sound (h : Heap) : Prop := Linked h.nodeKeys h.refKeys h.procs

structure Keeps (h h' : Heap) : Prop where
  sound : h'.Sound
  queued : ∀ l, h'.queued l = h.queued l

structure Grows (h h' : Heap) : Prop extends h.Keeps h', h.Extends h'

def countOf (h : Heap) (strong : Bool) (r : Nat) : Nat :=
  (h.refs r).elim 0 fun ref => (ref.count strong).toNat

/-- The heap after a write to the node at `a`, up to the lists of work. -/
structure Rewrites (h : Heap) (a : Nat) (n : Node) (h' : Heap) : Prop where
  nodes : ∃ w, h'.nodes = update h.nodes a (some { n with work := w })
  refs : h'.refs = h.refs
  procs : h'.procs = h.procs
  contextMgrNode : h'.contextMgrNode = h.contextMgrNode
  queued : ∀ l, h'.queued l = h.queued l

/-- The heap after the node at `a` with the owner `proc` was freed, up to the lists of work. -/
structure Frees (rb : Rebalance Nat) (h : Heap) (a : Nat) (proc : Option Nat) (h' : Heap) :
    Prop where
  nodes : h'.nodes = update h.nodes a none
  refs : h'.refs = h.refs
  refTrees : ∀ p, (h'.procs p).refsByDesc = (h.procs p).refsByDesc ∧
    (h'.procs p).refsByNode = (h.procs p).refsByNode
  nodeTree : ∀ p, (h'.procs p).nodes =
    if proc = some p then rb.erase a (h.procs p).nodes else (h.procs p).nodes
  contextMgrNode : h'.contextMgrNode = h.contextMgrNode
  queued : ∀ l, h'.queued l = h.queued l

end Heap

section
variable {h h' : Heap} {a : Nat} {n n' : Node} {r : Nat} {ref : Ref} {n' : Node}

lemma Heap.node_of_eq (ha : h.nodes a = some n) : h.node a = .ok n := by
  simp [Heap.node, ha]

lemma Heap.ref_of_eq (hr : h.refs r = some ref) : h.ref r = .ok ref := by
  simp [Heap.ref, hr]

lemma Heap.nodeKeys_of_eq (ha : h.nodes a = some n) : h.nodeKeys a = some n.key := by
  simp [Heap.nodeKeys, ha]

lemma Heap.refKeys_of_eq (hr : h.refs r = some ref) : h.refKeys r = some ref.key := by
  simp [Heap.refKeys, hr]

lemma Heap.refKeys_eq_some {k : RefKey} (hr : h.refKeys r = some k) :
    ∃ ref, h.refs r = some ref ∧ ref.key = k :=
  map_eq_some_iff.mp hr

lemma Heap.nodeKeys_eq_some {k : NodeKey} (ha : h.nodeKeys a = some k) :
    ∃ n, h.nodes a = some n ∧ n.key = k :=
  map_eq_some_iff.mp ha

lemma nodeKeys_update {x : Option Node} (hn : h'.nodes = update h.nodes a x) :
    h'.nodeKeys = update h.nodeKeys a (x.map Node.key) := by
  funext b
  by_cases hb : b = a
  · subst hb
    simp [Heap.nodeKeys, hn]
  · simp [Heap.nodeKeys, hn, hb]

lemma refKeys_update {x : Option Ref} (hr : h'.refs = update h.refs r x) :
    h'.refKeys = update h.refKeys r (x.map Ref.key) := by
  funext b
  by_cases hb : b = r
  · subst hb
    simp [Heap.refKeys, hr]
  · simp [Heap.refKeys, hr, hb]

lemma refKeys_congr (hr : h'.refs = h.refs) : h'.refKeys = h.refKeys := by
  funext r
  rw [Heap.refKeys, hr, Heap.refKeys]

/-! ### Writes to a node -/

namespace Heap

lemma rewrites_setNode : h.Rewrites a n (h.setNode a n) :=
  ⟨⟨n.work, rfl⟩, rfl, rfl, rfl, fun _ => rfl⟩

lemma rewrites_self (ha : h.nodes a = some n) : h.Rewrites a n h :=
  ⟨⟨n.work, (update_eq_self_iff.mpr ha.symm).symm⟩, rfl, rfl, rfl, fun _ => rfl⟩

lemma filter_erase_node (a : Nat) (ws : List Work) :
    (ws.erase (.node a)).filter (fun w => !w.isNode) = ws.filter fun w => !w.isNode := by
  rw [← erase_filter, erase_of_not_mem]
  intro hmem
  have hnot := (mem_filter.mp hmem).2
  cases hnot

section
variable (hw : h.Rewrites a n h')
include hw

lemma Rewrites.setWork (w : Option Todo) {l : Todo} {ws : List Work}
    (hws : ws.filter (fun w => !w.isNode) = (h'.todo l).filter fun w => !w.isNode) :
    h.Rewrites a n { h'.setNode a { n with work := w } with todo := update h'.todo l ws } := by
  obtain ⟨w', hn⟩ := hw.nodes
  refine ⟨⟨w, ?_⟩, hw.refs, hw.procs, hw.contextMgrNode, fun l' => ?_⟩
  · show update h'.nodes a _ = _
    rw [hn, update_idem]
  rw [← hw.queued l']
  show (update h'.todo l _ l').filter _ = _
  by_cases hl : l' = l
  · subst hl
    rw [update_self, hws]
    rfl
  · rw [update_of_ne hl]
    rfl

lemma Rewrites.delWork : h.Rewrites a n (h'.delWork a n) := by
  unfold Heap.delWork
  split
  · exact hw
  · exact hw.setWork none (filter_erase_node a _)

lemma Rewrites.addWork (l : Todo) : h.Rewrites a n (h'.addWork a n l) := by
  refine hw.setWork (some l) ?_
  rw [filter_append]
  exact append_nil _

lemma Rewrites.frees {p : Nat} (hp : n.proc = some p) : Frees rb h a n.proc ((h'.setTrees p
      { h'.procs p with nodes := rb.erase a (h'.procs p).nodes }).freeNode a) := by
  obtain ⟨w, hnodes⟩ := hw.nodes
  refine ⟨?_, hw.refs, fun q => ?_, fun q => ?_, hw.contextMgrNode, hw.queued⟩
  · show update h'.nodes a none = _
    rw [hnodes, update_idem]
  · rw [← hw.procs]
    exact setNodes_refTrees h'.procs p _ q
  rw [← hw.procs, hp]
  refine (setNodes_nodes h'.procs p _ q).trans ?_
  split
  · next hq =>
    cases hq
    rfl
  · rfl

lemma Rewrites.frees_dead (hp : n.proc = none) : Frees rb h a n.proc (h'.freeNode a) := by
  obtain ⟨w, hnodes⟩ := hw.nodes
  refine ⟨?_, hw.refs, fun q => ?_, fun q => ?_, hw.contextMgrNode, hw.queued⟩
  · show update h'.nodes a none = _
    rw [hnodes, update_idem]
  · rw [← hw.procs]
    exact ⟨rfl, rfl⟩
  · rw [← hw.procs, hp]
    rfl

lemma Rewrites.get : ∃ w, h'.nodes a = some { n with work := w } := by
  obtain ⟨w, hn⟩ := hw.nodes
  exact ⟨w, by rw [hn, update_self]⟩

lemma Rewrites.nodeKeys : h'.nodeKeys = update h.nodeKeys a (some n.key) := by
  obtain ⟨w, hn⟩ := hw.nodes
  rw [nodeKeys_update hn]
  rfl

end

lemma extends_of_write (hrefs : h'.refKeys = h.refKeys)
    (hnodes : h'.nodes = update h.nodes a (some n'))
    (hmgr : h'.contextMgrNode = h.contextMgrNode) (ha : h.nodes a = some n) (hkey : n'.key = n.key)
    (hcookie : n'.cookie = n.cookie) : h.Extends h' ∧ h'.Extends h := by
  have hproc : n'.proc = n.proc := congrArg NodeKey.proc hkey
  have hptr : n'.ptr = n.ptr := congrArg NodeKey.ptr hkey
  refine ⟨⟨fun r k hk => by rwa [hrefs], ?_, hmgr⟩,
    ⟨fun r k hk => by rwa [hrefs] at hk, ?_, hmgr.symm⟩⟩
  · intro b m hb
    by_cases hba : b = a
    · subst hba
      rw [ha] at hb
      cases hb
      exact ⟨n', by rw [hnodes, update_self], hproc, hptr, hcookie⟩
    · exact ⟨m, by rw [hnodes, update_of_ne hba, hb], rfl, rfl, rfl⟩
  intro b m hb
  rw [hnodes] at hb
  rcases update_some_eq_some.mp hb with ⟨rfl, rfl⟩ | ⟨-, hb⟩
  · exact ⟨n, ha, hproc.symm, hptr.symm, hcookie.symm⟩
  · exact ⟨m, hb, rfl, rfl, rfl⟩

lemma Rewrites.extends (hw : h.Rewrites a n' h') (ha : h.nodes a = some n) (hkey : n'.key = n.key)
    (hcookie : n'.cookie = n.cookie) : h.Extends h' ∧ h'.Extends h := by
  obtain ⟨w, hnodes⟩ := hw.nodes
  exact extends_of_write (refKeys_congr hw.refs) hnodes hw.contextMgrNode ha hkey hcookie

lemma Rewrites.countOf (hw : h.Rewrites a n h') : h'.countOf = h.countOf := by
  funext strong r
  rw [Heap.countOf, hw.refs, Heap.countOf]

lemma Extends.refl (h : Heap) : h.Extends h :=
  ⟨fun _ _ hk => hk, fun _ n hn => ⟨n, hn, rfl, rfl, rfl⟩, rfl⟩

lemma Extends.trans {h1 h2 h3 : Heap} (h12 : h1.Extends h2) (h23 : h2.Extends h3) :
    h1.Extends h3 := by
  refine ⟨fun r k hk => h23.refs r k (h12.refs r k hk), ?_, h23.mgr.trans h12.mgr⟩
  intro b m hb
  obtain ⟨m', hm', hproc, hptr, hcookie⟩ := h12.nodes b m hb
  obtain ⟨m'', hm'', hproc', hptr', hcookie'⟩ := h23.nodes b m' hm'
  exact ⟨m'', hm'', hproc'.trans hproc, hptr'.trans hptr, hcookie'.trans hcookie⟩

/-! ### The links -/

lemma Keeps.refl (hs : h.Sound) : h.Keeps h := ⟨hs, fun _ => rfl⟩

lemma Grows.refl (hs : h.Sound) : h.Grows h := ⟨Keeps.refl hs, Extends.refl h⟩

section
variable (hs : h.Sound) (ha : h.nodes a = some n)
include hs ha

lemma Sound.rewrites (hw : h.Rewrites a n' h') (hkey : n'.key = n.key) : h'.Sound := by
  unfold Heap.Sound
  rw [hw.nodeKeys, hkey, ← nodeKeys_of_eq ha, update_eq_self, refKeys_congr hw.refs, hw.procs]
  exact hs

lemma Sound.frees {rb : Rebalance Nat} (hf : Heap.Frees rb h a n.proc h') (hrefs : n.refs = []) :
    h'.Sound := by
  unfold Heap.Sound
  rw [nodeKeys_update hf.nodes, refKeys_congr hf.refs]
  exact hs.freeNode rb (nodeKeys_of_eq ha) hrefs hf.refTrees hf.nodeTree

end

lemma Sound.node_of_ref (hs : h.Sound) (hr : h.refs r = some ref) :
    ∃ m, h.nodes ref.node = some m ∧ r ∈ m.refs := by
  obtain ⟨k, hk⟩ := hs.node_live r ref.key (refKeys_of_eq hr)
  obtain ⟨m, hm, rfl⟩ := nodeKeys_eq_some hk
  exact ⟨m, hm, (hs.mem_refs _ _ hk r).mpr ⟨ref.key, refKeys_of_eq hr, rfl⟩⟩

end Heap

end

/-! ### `binder_inc_node` and `binder_dec_node` -/

section
variable {h : Heap} {a : Nat} {n : Node}

def Node.inc (n : Node) (strong internal : Bool) : Node :=
  if strong then
    if internal then { n with internalStrongRefs := wrapInt (n.internalStrongRefs + 1) }
    else { n with localStrongRefs := wrapInt (n.localStrongRefs + 1) }
  else
    if !internal then { n with localWeakRefs := wrapInt (n.localWeakRefs + 1) } else n

variable (strong internal : Bool)

lemma Node.inc_key (n : Node) : (n.inc strong internal).key = n.key := by
  cases strong <;> cases internal <;> rfl

lemma Node.inc_cookie (n : Node) : (n.inc strong internal).cookie = n.cookie := by
  cases strong <;> cases internal <;> rfl

lemma Node.dec_key (n : Node) : (n.dec strong internal).key = n.key := by
  cases strong <;> cases internal <;> rfl

variable (ha : h.nodes a = some n)
include ha

lemma incNode_spec (targetList : Option Todo) :
    ∃ ret h', binderIncNode h a strong internal targetList = .ok (ret, h') ∧
      (((ret = 0 ∨ internal = false) ∧ h.Rewrites a (n.inc strong internal) h') ∨
        (ret ≠ 0 ∧ targetList = none ∧ internal = true ∧ h.Rewrites a n h')) := by
  unfold binderIncNode
  rw [node_of_eq ha, ok_bind]
  cases strong with
  | true =>
    simp only [if_true]
    split
    · next hinvalid =>
      simp only [Bool.and_eq_true, isNone_iff_eq_none] at hinvalid
      obtain ⟨⟨⟨hint, hnone⟩, -⟩, -⟩ := hinvalid
      exact ⟨_, _, rfl, .inr ⟨by decide, hnone, hint, rewrites_self ha⟩⟩
    cases targetList with
    | none => exact ⟨_, _, rfl, .inl ⟨.inl rfl, rewrites_setNode⟩⟩
    | some l =>
      change ∃ ret h', (if !(n.inc true internal).hasStrongRef then _ else _) = _ ∧ _
      split
      · exact ⟨_, _, rfl, .inl ⟨.inl rfl, rewrites_setNode.delWork.addWork l⟩⟩
      · exact ⟨_, _, rfl, .inl ⟨.inl rfl, rewrites_setNode⟩⟩
  | false =>
    change ∃ ret h', (if !(n.inc false internal).hasWeakRef && (n.inc false internal).work.isNone
      then _ else _) = _ ∧ _
    split
    · cases targetList with
      | none =>
        cases internal with
        | true => exact ⟨_, _, rfl, .inr ⟨by decide, rfl, rfl, rewrites_setNode⟩⟩
        | false => exact ⟨_, _, rfl, .inl ⟨.inr rfl, rewrites_setNode⟩⟩
      | some l => exact ⟨_, _, rfl, .inl ⟨.inl rfl, rewrites_setNode.addWork l⟩⟩
    · exact ⟨_, _, rfl, .inl ⟨.inl rfl, rewrites_setNode⟩⟩

lemma decNode_spec :
    ∃ h', binderDecNode rb h a strong internal = .ok h' ∧ (h.Rewrites a (n.dec strong internal) h' ∨
        (Heap.Frees rb h a n.proc h' ∧ n.refs = [] ∧
          ∀ kind, (n.dec strong internal).localRefs kind = 0)) := by
  have hkey := n.dec_key strong internal
  have hproc : (n.dec strong internal).proc = n.proc := congrArg NodeKey.proc hkey
  have hrefs : (n.dec strong internal).refs = n.refs := congrArg NodeKey.refs hkey
  unfold binderDecNode
  rw [node_of_eq ha, ok_bind]
  generalize n.dec strong internal = m at *
  have hzero : (m.refs.isEmpty && m.localStrongRefs == 0 && m.localWeakRefs == 0) = true →
      n.refs = [] ∧ ∀ kind, m.localRefs kind = 0 := by
    simp only [Bool.and_eq_true, List.isEmpty_iff, beq_iff_eq, ← hrefs]
    rintro ⟨⟨hnil, hstrong⟩, hweak⟩
    refine ⟨hnil, fun kind => ?_⟩
    cases kind with
    | true => exact hstrong
    | false => exact hweak
  rw [← hproc]
  simp only
  split
  · exact ⟨_, rfl, .inl rewrites_setNode⟩
  split
  · exact ⟨_, rfl, .inl rewrites_setNode⟩
  split
  · next p hp =>
    split
    · split
      · exact ⟨_, rfl, .inl (rewrites_setNode.addWork _)⟩
      · exact ⟨_, rfl, .inl rewrites_setNode⟩
    split
    · next hempty =>
      exact ⟨_, rfl, .inr ⟨rewrites_setNode.delWork.frees rb hp, hzero hempty⟩⟩
    · exact ⟨_, rfl, .inl rewrites_setNode⟩
  next hp =>
  split
  · next hempty =>
    exact ⟨_, rfl, .inr ⟨rewrites_setNode.delWork.frees_dead rb hp, hzero hempty⟩⟩
  · exact ⟨_, rfl, .inl rewrites_setNode⟩

end

/-! ### The holds -/

lemma setHold_apply (holds : Bool → Nat → Nat) (strong : Bool) (a x : Nat) (kind : Bool) (b : Nat) :
    update holds strong (update (holds strong) a x) kind b =
      if kind = strong ∧ b = a then x else holds kind b := by
  by_cases hk : kind = strong
  · subst hk
    by_cases hb : b = a
    · subst hb
      simp
    · simp [hb]
  · simp [hk]

lemma Node.inc_localRefs (n : Node) (strong kind : Bool) : (n.inc strong false).localRefs kind =
      if kind = strong then wrapInt (n.localRefs strong + 1) else n.localRefs kind := by
  cases strong <;> cases kind <;> rfl

lemma Node.dec_localRefs (n : Node) (strong kind : Bool) : (n.dec strong false).localRefs kind =
      if kind = strong then wrapInt (n.localRefs strong - 1) else n.localRefs kind := by
  cases strong <;> cases kind <;> rfl

section
variable {h h' : Heap} {holds holds' : Bool → Nat → Nat} {a : Nat} {n n' : Node}

lemma Heap.Counted.write (hc : h.Counted) {x : Option Node} (hnodes : h'.nodes = update h.nodes a x)
    (hrefs : h'.refs = h.refs)
    (hx : ∀ m ∈ x, m.internalStrongRefs = m.refs.countP (strongAt h.refs)) : h'.Counted := by
  refine ⟨fun b m hb => ?_, fun r ref hr => hc.count r ref (hrefs ▸ hr)⟩
  rw [hnodes] at hb
  rw [hrefs]
  by_cases hba : b = a
  · subst hba
    rw [update_self] at hb
    exact hx m hb
  · rw [update_of_ne hba] at hb
    exact hc.internal b m hb

lemma Heap.Held.write (hh : h.Held holds) {x : Option Node} (hnodes : h'.nodes = update h.nodes a x)
    (hmgr : ∀ b, b ≠ a → h'.contextMgrNode = some b → h.contextMgrNode = some b)
    (hlocal : ∀ m ∈ x, ∀ strong, m.localRefs strong = holds' strong a ∧ m.localRefs strong ≤ intMax)
    (hgone : x = none → ∀ strong, holds' strong a = 0)
    (hother : ∀ b, b ≠ a → ∀ strong, holds' strong b = holds strong b)
    (hlast : h'.contextMgrNode = some a → ∀ strong, 0 < holds' strong a) : h'.Held holds' := by
  refine ⟨fun b m hb strong => ?_, fun b hb strong => ?_, fun b hb strong => ?_⟩ <;>
    by_cases hba : b = a
  · subst hba
    rw [hnodes, update_self] at hb
    exact hlocal m hb strong
  · rw [hnodes, update_of_ne hba] at hb
    rw [hother b hba]
    exact hh.localRefs b m hb strong
  · subst hba
    rw [hnodes, update_self] at hb
    exact hgone hb strong
  · rw [hnodes, update_of_ne hba] at hb
    rw [hother b hba]
    exact hh.gone b hb strong
  · subst hba
    exact hlast hb strong
  · rw [hother b hba]
    exact hh.mgr b (hmgr b hba hb) strong

lemma Heap.Held.write_same (hh : h.Held holds) (ha : h.nodes a = some n)
    (hnodes : h'.nodes = update h.nodes a (some n')) (hmgr : h'.contextMgrNode = h.contextMgrNode)
    (hlocal : ∀ strong, n'.localRefs strong = n.localRefs strong) : h'.Held holds := by
  refine hh.write hnodes (by simp [hmgr]) ?_ (by simp) (fun _ _ _ => rfl) (hmgr ▸ hh.mgr a)
  rintro m ⟨⟩ strong
  rw [hlocal strong]
  exact hh.localRefs a n ha strong

namespace Heap.Consistent

section
variable (hc : h.Consistent holds)
include hc

section
variable (ha : h.nodes a = some n) (hw : h.Rewrites a n' h') (hkey : n'.key = n.key)
  (hinternal : n'.internalStrongRefs = n.internalStrongRefs)
include ha hw hkey hinternal

lemma rewrites (hlocal : ∀ strong, n'.localRefs strong = holds' strong a ∧
    n'.localRefs strong ≤ intMax)
    (hother : ∀ b, b ≠ a → ∀ strong, holds' strong b = holds strong b)
    (hmgr : h.contextMgrNode = some a → ∀ strong, 0 < holds' strong a) : h'.Consistent holds' := by
  obtain ⟨w, hnodes⟩ := hw.nodes
  refine ⟨Sound.rewrites hc.linked ha hw hkey, hc.counted.write hnodes hw.refs ?_,
    hc.held.write hnodes (by simp [hw.contextMgrNode]) ?_ (by simp) hother
      (hw.contextMgrNode ▸ hmgr)⟩
  · rintro m ⟨⟩
    have hrefs : n'.refs = n.refs := congrArg NodeKey.refs hkey
    rw [hinternal, hrefs]
    exact hc.counted.internal a n ha
  · rintro m ⟨⟩
    exact hlocal

lemma rewrites_same (hlocal : ∀ strong, n'.localRefs strong = n.localRefs strong) :
    h'.Consistent holds := by
  refine hc.rewrites ha hw hkey hinternal ?_ (fun _ _ _ => rfl) fun hmgr => hc.held.mgr a hmgr
  intro strong
  rw [hlocal strong]
  exact hc.held.localRefs a n ha strong

lemma rewrites_hold {strong : Bool} (hrange : n.localRefs strong ≠ intMax)
    (hlocal : ∀ kind, n'.localRefs kind = (n.inc strong false).localRefs kind) :
    h'.Consistent (addHold holds strong a) := by
  have hmax := (hc.held.localRefs a n ha strong).2
  have hpos : n.localRefs strong = holds strong a := (hc.held.localRefs a n ha strong).1
  refine hc.rewrites ha hw hkey hinternal ?_ ?_ ?_
  · intro kind
    rw [hlocal kind, Node.inc_localRefs, addHold, setHold_apply]
    by_cases hk : kind = strong
    · subst hk
      have hlt : n.localRefs kind < intMax := lt_of_le_of_ne hmax hrange
      have hwrap : wrapInt (n.localRefs kind + 1) = n.localRefs kind + 1 := by
        unfold intMax at hlt
        exact wrapInt_of_mem (by omega) (by omega)
      rw [hwrap, hpos]
      exact ⟨by simp, by omega⟩
    · rw [if_neg hk, if_neg fun hand => hk hand.1]
      exact hc.held.localRefs a n ha kind
  · intro b hb kind
    rw [addHold, setHold_apply, if_neg fun hand => hb hand.2]
  intro hmgr kind
  rw [addHold, setHold_apply]
  split
  · exact Nat.succ_pos _
  · exact hc.held.mgr a hmgr kind

end

lemma frees {rb : Rebalance Nat} (ha : h.nodes a = some n)
    (hf : Heap.Frees rb h a n.proc h') (hrefs : n.refs = []) (hzero : ∀ strong, holds' strong a = 0)
    (hother : ∀ b, b ≠ a → ∀ strong, holds' strong b = holds strong b)
    (hmgr : h.contextMgrNode ≠ some a) : h'.Consistent holds' :=
  ⟨Sound.frees hc.linked ha hf hrefs, hc.counted.write hf.nodes hf.refs (by simp),
    hc.held.write hf.nodes (by simp [hf.contextMgrNode]) (by simp) (fun _ => hzero) hother
      fun hm => absurd (hf.contextMgrNode ▸ hm) hmgr⟩

lemma frees_unheld {rb : Rebalance Nat} (ha : h.nodes a = some n)
    (hf : Heap.Frees rb h a n.proc h') (hrefs : n.refs = [])
    (hlocal : ∀ kind, n.localRefs kind = 0) :
    h'.Consistent holds := by
  have hzero : ∀ kind, holds kind a = 0 := by
    intro kind
    have heq := (hc.held.localRefs a n ha kind).1
    rw [hlocal kind] at heq
    omega
  refine hc.frees ha hf hrefs hzero (fun _ _ _ => rfl) ?_
  intro hmgr
  have hpos := hc.held.mgr a hmgr true
  rw [hzero true] at hpos
  exact lt_irrefl 0 hpos

lemma node_of_hold {strong : Bool} (hpos : 0 < holds strong a) : ∃ n, h.nodes a = some n := by
  cases hn : h.nodes a with
  | some n => exact ⟨n, rfl⟩
  | none =>
    rw [hc.held.gone a hn strong] at hpos
    exact absurd hpos (lt_irrefl 0)

end

end Heap.Consistent

lemma Heap.Frees.extends {rb : Rebalance Nat} {proc : Option Nat}
    (hf : Heap.Frees rb h a proc h') : h'.Extends h := by
  have hrefs : h'.refKeys = h.refKeys := refKeys_congr hf.refs
  refine ⟨fun r k hk => by rwa [hrefs] at hk, ?_, hf.contextMgrNode.symm⟩
  intro b m hb
  rw [hf.nodes] at hb
  obtain ⟨-, hb⟩ := update_none_eq_some.mp hb
  exact ⟨m, hb, rfl, rfl, rfl⟩

lemma incLocal_spec (hc : h.Consistent holds) (ha : h.nodes a = some n) (strong : Bool)
    (hrange : n.localRefs strong ≠ intMax) (targetList : Option Todo) :
    ∃ ret h', binderIncNode h a strong false targetList = .ok (ret, h') ∧
      h'.Consistent (addHold holds strong a) ∧ h.Extends h' ∧ h'.refs = h.refs := by
  obtain ⟨ret, h', hrun, ⟨-, hw⟩ | ⟨-, -, hint, -⟩⟩ := incNode_spec strong false ha targetList
  · refine ⟨ret, h', hrun, ?_, (hw.extends ha (n.inc_key _ _) (n.inc_cookie _ _)).1, hw.refs⟩
    refine hc.rewrites_hold ha hw (n.inc_key strong false) ?_ hrange fun _ => rfl
    cases strong <;> rfl
  · cases hint

/-- A hold that is out is given back. The node is freed if it was the last one and there are no
references. -/
theorem decLocal_spec (hc : h.Consistent holds) {strong : Bool}
    (hpos : 0 < holds strong a) (hmgr : h.contextMgrNode = some a → 1 < holds strong a) :
    ∃ h', binderDecNode rb h a strong false = .ok h' ∧ h'.Consistent (dropHold holds strong a) ∧
      h'.Extends h ∧ h'.refs = h.refs := by
  obtain ⟨n, ha⟩ := hc.node_of_hold hpos
  obtain ⟨h', hrun, hresult⟩ := decNode_spec rb strong false ha
  have hlocal : ∀ kind, (n.dec strong false).localRefs kind = dropHold holds strong a kind a ∧
      (n.dec strong false).localRefs kind ≤ intMax := by
    intro kind
    rw [Node.dec_localRefs, dropHold, setHold_apply]
    obtain ⟨heq, hle⟩ := hc.held.localRefs a n ha kind
    by_cases hk : kind = strong
    · subst hk
      have hwrap : wrapInt (n.localRefs kind - 1) = n.localRefs kind - 1 := by
        unfold intMax at hle
        exact wrapInt_of_mem (by omega) (by omega)
      rw [if_pos rfl, if_pos ⟨rfl, rfl⟩]
      exact ⟨by omega, by omega⟩
    · rw [if_neg hk, if_neg fun hand => hk hand.1]
      exact ⟨heq, hle⟩
  have hother : ∀ b, b ≠ a → ∀ kind, dropHold holds strong a kind b = holds kind b := by
    intro b hb kind
    rw [dropHold, setHold_apply, if_neg fun hand => hb hand.2]
  have hmgr' : h.contextMgrNode = some a → ∀ kind, 0 < dropHold holds strong a kind a := by
    intro hm kind
    rw [dropHold, setHold_apply]
    split
    · have := hmgr hm
      omega
    · exact hc.held.mgr a hm kind
  refine ⟨h', hrun, ?_⟩
  rcases hresult with hw | ⟨hf, hrefs, hzero⟩
  · refine ⟨hc.rewrites ha hw (n.dec_key strong false) ?_ hlocal hother hmgr',
      (hw.extends ha (n.dec_key strong false) ?_).2, hw.refs⟩
    all_goals cases strong <;> rfl
  have hgone : ∀ kind, dropHold holds strong a kind a = 0 := by
    intro kind
    have h0 := (hlocal kind).1
    rw [hzero kind] at h0
    omega
  refine ⟨hc.frees ha hf hrefs hgone hother ?_, hf.extends, hf.refs⟩
  intro hm
  have := hmgr' hm strong
  rw [hgone strong] at this
  exact lt_irrefl 0 this

end

end Wm8850.Binder
