import Wm8850.Proofs.Binder.RefObjects

/-! # Every sequence of calls keeps the references consistent

Each call that is made for objects that are there returns and keeps the state consistent
(`exec_spec`). Nothing bounds the counts: after `2 ^ 31` calls of `binder_inc_ref` a strong count is
negative (`strong_overflow`). -/

namespace Wm8850.Binder

open Lib Function Option Heap Bool

section
variable {h : Heap} {holds : Bool → Nat → Nat} {a : Nat} {n : Node} {proc : Nat}

/-! ### The other changes of a node -/

section
variable (rb : Rebalance Nat) (hc : h.Consistent holds)
include hc

lemma setContextMgr_spec (proc : Nat) {kzalloc : Option Nat} (hfresh : ∀ a ∈ kzalloc, h.Fresh a) :
    ∃ ret h', setContextMgr rb h proc kzalloc = .ok (ret, h') ∧ ((ret ≠ 0 ∧ h'.Consistent holds) ∨
        ∃ a, ret = 0 ∧ h'.contextMgrNode = some a ∧
          h'.Consistent (addHold (addHold holds true a) false a)) := by
  unfold setContextMgr
  split
  · exact ⟨- EBUSY, h, rfl, .inl ⟨by decide, hc⟩⟩
  next hmgr =>
  obtain ⟨res, h1, hrun, hadds, hres⟩ := newNode_spec rb hc.linked proc 0 0 hfresh
  have hc1 := hadds.consistent holds hc
  rcases hres with ⟨rfl, rfl⟩ | ⟨a, rfl, hnew, hh1⟩
  · rw [hrun]
    have hheld : Heap.Held { h1 with contextMgrNode := none } holds :=
      ⟨hc1.held.localRefs, hc1.held.gone, fun b hb => by cases hb⟩
    exact ⟨- ENOMEM, { h1 with contextMgrNode := none }, rfl,
      .inl ⟨by decide, hc1.linked, ⟨hc1.counted.internal, hc1.counted.count⟩, hheld⟩⟩
  have hget : h1.nodes a = some (Node.new proc 0 0) := by rw [hh1]; exact update_self _ _ _
  rw [hrun, ok_bind]
  simp only
  rw [show Heap.node { h1 with contextMgrNode := some a } a = _ from node_of_eq hget]
  -- two holds on a node that had none
  have hzero : ∀ strong, holds strong a = 0 := hc.held.gone a hnew
  have hheld : ∀ kind, addHold (addHold holds true a) false a kind a = 1 := by
    intro kind
    cases kind with
    | true => simp [addHold, setHold_apply, hzero]
    | false => simp [addHold, setHold_apply, hzero]
  obtain ⟨m, hm⟩ : ∃ m : Node, m = { Node.new proc 0 0 with
      localWeakRefs := wrapInt (0 + 1), localStrongRefs := wrapInt (0 + 1)
      hasStrongRef := true, hasWeakRef := true } := ⟨_, rfl⟩
  obtain ⟨h2, hh2⟩ : ∃ h2, h2 = Heap.setNode { h1 with contextMgrNode := some a } a m := ⟨_, rfl⟩
  have hnodes : h2.nodes = update h1.nodes a (some m) := by rw [hh2]; rfl
  refine ⟨0, h2, by rw [hh2, hm]; rfl, .inr ⟨a, rfl, by rw [hh2]; rfl, ?_⟩⟩
  refine ⟨?_, hc1.counted.write hnodes (by rw [hh2]; rfl) ?_,
    hc1.held.write hnodes ?_ ?_ (by simp) ?_ fun _ kind => by rw [hheld]; exact one_pos⟩
  · have hs : (h1.setNode a m).Sound :=
      Heap.Sound.rewrites hc1.linked hget rewrites_setNode (by rw [hm]; rfl)
    rw [hh2]
    exact hs
  · rintro x ⟨⟩
    rw [hm]
    rfl
  · intro b hb hmgr'
    rw [hh2] at hmgr'
    exact absurd (Option.some.inj hmgr').symm hb
  · rintro x ⟨⟩ kind
    have hlocal : m.localRefs kind = 1 := by
      rw [hm]
      cases kind <;> rfl
    rw [hlocal, hheld kind]
    exact ⟨rfl, by decide⟩
  · intro b hb kind
    rw [addHold, setHold_apply, if_neg fun hand => hb hand.2, addHold, setHold_apply,
      if_neg fun hand => hb hand.2]

lemma readNodeWork_spec (ha : h.nodes a = some n) (hproc : n.proc = some proc)
    (hrange : ∀ strong, n.localRefs strong ≠ intMax) :
    ∃ cmd h', readNodeWork rb h proc a = .ok (cmd, h') ∧
      h'.Consistent (match cmd with
        | .increfs => addHold holds false a
        | .acquire => addHold holds true a
        | _ => holds) := by
  unfold readNodeWork
  rw [node_of_eq ha, ok_bind]
  simp only
  split
  · refine ⟨.increfs, _, rfl, ?_⟩
    refine hc.rewrites_hold ha rewrites_setNode (by rfl) (by rfl) (hrange false) fun kind => ?_
    cases kind <;> rfl
  split
  · refine ⟨.acquire, _, rfl, ?_⟩
    refine hc.rewrites_hold ha rewrites_setNode (by rfl) (by rfl) (hrange true) fun kind => ?_
    cases kind <;> rfl
  split
  · exact ⟨.release, _, rfl, hc.rewrites_same ha rewrites_setNode rfl rfl fun _ => rfl⟩
  split
  · exact ⟨.decrefs, _, rfl, hc.rewrites_same ha rewrites_setNode rfl rfl fun _ => rfl⟩
  have hw := (rewrites_self ha).delWork
  split
  · next hunused =>
    -- nobody needs the node
    refine ⟨.noop, _, rfl, ?_⟩
    simp only [and_eq_true, not_eq_true', or_eq_false_iff, bne_eq_false_iff_eq,
      not_eq_false', List.isEmpty_iff] at hunused
    obtain ⟨⟨⟨hrefs, hweak⟩, -⟩, -, hstrong⟩ := hunused
    have hlocal : ∀ kind, n.localRefs kind = 0 := by
      intro kind
      cases kind with
      | true => exact hstrong
      | false => exact hweak
    exact hc.frees_unheld ha (hw.frees rb hproc) hrefs hlocal
  · exact ⟨.noop, _, rfl, hc.rewrites_same ha hw rfl rfl fun _ => rfl⟩

lemma releaseNode_spec (ha : h.nodes a = some n) (hproc : n.proc = some proc) :
    ∃ h', releaseNode rb h proc a = .ok h' ∧ h'.Consistent (clearHolds holds a) := by
  unfold releaseNode
  rw [node_of_eq ha]
  refine ⟨_, rfl, ?_⟩
  obtain ⟨g, hg⟩ : ∃ g : Heap, g = Heap.setTrees
      { h with contextMgrNode := if h.contextMgrNode = some a then none else h.contextMgrNode } proc
      { h.procs proc with nodes := rb.erase a (h.procs proc).nodes } := ⟨_, rfl⟩
  have hw : g.Rewrites a n (g.delWork a n) := (rewrites_self (by rw [hg]; exact ha)).delWork
  obtain ⟨w, hwn⟩ := hw.nodes
  obtain ⟨m, hm⟩ : ∃ m : Node, m =
      { n with work := none, proc := none, localStrongRefs := 0, localWeakRefs := 0 } := ⟨_, rfl⟩
  obtain ⟨h', hh'⟩ : ∃ h', h' = (g.delWork a n).setNode a m := ⟨_, rfl⟩
  have hnodes : h'.nodes = update h.nodes a (some m) := by
    rw [hh']
    show update (g.delWork a n).nodes a (some m) = _
    rw [hwn, update_idem, hg]
    rfl
  have hrefs : h'.refs = h.refs := by
    rw [hh']
    show (g.delWork a n).refs = _
    rw [hw.refs, hg]
    rfl
  have hmgr : h'.contextMgrNode = if h.contextMgrNode = some a then none else h.contextMgrNode := by
    rw [hh']
    show (g.delWork a n).contextMgrNode = _
    rw [hw.contextMgrNode, hg]
    rfl
  rw [← hg, ← hm, ← hh']
  refine ⟨?_, hc.counted.write hnodes hrefs ?_,
    hc.held.write hnodes ?_ ?_ (by simp) (fun b hb _ => update_of_ne hb _ _) ?_⟩
  · rw [nodeKeys_update hnodes, refKeys_congr hrefs]
    have hprocs : h'.procs = update h.procs proc
        { h.procs proc with nodes := rb.erase a (h.procs proc).nodes } := by
      rw [hh']
      show (g.delWork a n).procs = _
      rw [hw.procs, hg]
      rfl
    rw [hprocs, hm]
    exact hc.linked.ownerDies rb (nodeKeys_of_eq ha) hproc
  · rintro x ⟨⟩
    rw [hm]
    exact hc.counted.internal a n ha
  · intro b _ hb
    rw [hmgr] at hb
    split at hb
    · cases hb
    · exact hb
  · rintro x ⟨⟩ strong
    rw [clearHolds, update_self, hm]
    cases strong with
    | true => exact ⟨rfl, zero_le_intMax⟩
    | false => exact ⟨rfl, zero_le_intMax⟩
  intro ha'
  rw [hmgr] at ha'
  split at ha'
  · cases ha'
  · next hne => exact absurd ha' hne

end

end

/-! ### Steps and runs -/

section
variable {rb : Rebalance Nat} {s : RefState}

lemma exec_spec (rb : Rebalance Nat) (hc : s.heap.Consistent s.holds) {e : RefEvent}
    (hvalid : e.Valid s)
    (hrange : e.InRange s) : ∃ t, e.exec rb s = .ok t ∧ t.heap.Consistent t.holds := by
  cases e with
  | newNode proc ptr cookie kzalloc =>
    obtain ⟨res, h', hrun, hadds, -⟩ := newNode_spec rb hc.linked proc ptr cookie hvalid
    exact ⟨_, by rw [RefEvent.exec, hrun]; rfl, hadds.consistent _ hc⟩
  | setContextMgr proc kzalloc =>
    obtain ⟨ret, h', hrun, ⟨hret, hc'⟩ | ⟨a, hret, hmgr, hc'⟩⟩ :=
      setContextMgr_spec rb hc proc hvalid
    · rw [RefEvent.exec, hrun, ok_bind]
      split
      · exact ⟨_, rfl, by simpa [hret] using hc'⟩
      · exact ⟨_, rfl, hc'⟩
    · rw [RefEvent.exec, hrun, ok_bind]
      simp only [hmgr]
      exact ⟨_, rfl, by simpa [hret] using hc'⟩
  | getRefForNode proc node kzalloc =>
    obtain ⟨n, hn⟩ := isSome_iff_exists.mp hvalid.1
    obtain ⟨res, h', hrun, hadds, -⟩ := getRefForNode_spec rb hc.linked proc hn hvalid.2
    exact ⟨_, by rw [RefEvent.exec, hrun]; rfl, hadds.consistent _ hc⟩
  | incRef r strong targetList =>
    obtain ⟨ref, hr⟩ := isSome_iff_exists.mp hvalid
    obtain ⟨ret, h', hrun, hc', -⟩ := incRef_spec hr hc strong (hrange ref hr) targetList
    exact ⟨_, by rw [RefEvent.exec, hrun]; rfl, hc'⟩
  | decRef r strong =>
    obtain ⟨ref, hr⟩ := isSome_iff_exists.mp hvalid
    obtain ⟨ret, h', hrun, hc', -⟩ := decRef_spec rb hr hc strong
    exact ⟨_, by rw [RefEvent.exec, hrun]; rfl, hc'⟩
  | deleteRef r =>
    obtain ⟨ref, hr⟩ := isSome_iff_exists.mp hvalid
    obtain ⟨h', hrun, -, -, -, hc'⟩ := deleteRef_spec rb hr hc.linked
    exact ⟨_, by rw [RefEvent.exec, hrun]; rfl, hc' _ hc⟩
  | incLocal a strong targetList =>
    obtain ⟨n, hn⟩ := isSome_iff_exists.mp hvalid
    obtain ⟨ret, h', hrun, hc', -⟩ := incLocal_spec hc hn strong (hrange n hn) targetList
    exact ⟨_, by rw [RefEvent.exec, hrun]; rfl, hc'⟩
  | decLocal a strong =>
    obtain ⟨h', hrun, hc', -⟩ := decLocal_spec rb hc hvalid.1 hvalid.2
    exact ⟨_, by rw [RefEvent.exec, hrun]; rfl, hc'⟩
  | threadRead proc a =>
    obtain ⟨n, hn, hproc⟩ := hvalid
    obtain ⟨cmd, h', hrun, hc'⟩ := readNodeWork_spec rb hc hn hproc (hrange n hn)
    exact ⟨_, by rw [RefEvent.exec, hrun]; rfl, hc'⟩
  | releaseWork a =>
    obtain ⟨n, hn⟩ := isSome_iff_exists.mp hvalid
    refine ⟨_, by rw [RefEvent.exec, node_of_eq hn]; rfl, ?_⟩
    exact hc.rewrites_same hn (rewrites_self hn).delWork rfl rfl fun _ => rfl
  | ownerDies proc a =>
    obtain ⟨n, hn, hproc, -⟩ := hvalid
    obtain ⟨h', hrun, hc'⟩ := releaseNode_spec rb hc hn hproc
    exact ⟨_, by rw [RefEvent.exec, hrun]; rfl, hc'⟩

lemma consistent_of_start (hs : s.Start) : s.heap.Consistent s.holds := by
  obtain ⟨hnodes, hrefs, hprocs, hmgr, hholds⟩ := hs
  have hnk : ∀ a, s.heap.nodeKeys a = none := fun a => by rw [Heap.nodeKeys, hnodes a]; rfl
  have hrk : ∀ r, s.heap.refKeys r = none := fun r => by rw [Heap.refKeys, hrefs r]; rfl
  refine ⟨⟨?_, ?_, ?_, ?_, ?_, ?_, ?_⟩, ⟨?_, ?_⟩, ⟨?_, ?_, ?_⟩⟩
  · exact fun a n ha => by simp [hnk a] at ha
  · exact fun a n ha => by simp [hnk a] at ha
  · exact fun r k hr => by simp [hrk r] at hr
  · exact fun r k hr => by simp [hrk r] at hr
  · exact fun r k hr => by simp [hrk r] at hr
  · intro p
    rw [hprocs p]
    exact ⟨fun a => by simp [hnk a], List.Pairwise.nil⟩
  · intro p
    rw [hprocs p]
    exact ⟨⟨fun r => by simp [hrk r], List.Pairwise.nil⟩,
      ⟨fun r => by simp [hrk r], List.Pairwise.nil⟩⟩
  · exact fun a n ha => by simp [hnodes a] at ha
  · exact fun r ref hr => by simp [hrefs r] at hr
  · exact fun a n ha => by simp [hnodes a] at ha
  · exact fun a _ strong => hholds strong a
  · exact fun a ha => by simp [hmgr] at ha

lemma consistent_of_reach (hreach : Reach RefState.Start (RefState.SafeStep rb) s) :
    s.heap.Consistent s.holds := by
  refine Reach.invariant (fun s => s.heap.Consistent s.holds)
    (fun _ => consistent_of_start) ?_ hreach
  rintro e s t hc ⟨hrange, hvalid, hrun⟩
  obtain ⟨t', hrun', hc'⟩ := exec_spec rb hc hvalid hrange
  rw [hrun] at hrun'
  cases hrun'
  exact hc'

/-- In every run in which no count overflows, the strong count of a node is the number of its strong
references, and a reference points to a node that is there and lists it. The next call touches no
freed object. -/
theorem refs_of_reach (hreach : Reach RefState.Start (RefState.SafeStep rb) s) :
    (∀ a n, s.heap.nodes a = some n → n.internalStrongRefs = n.refs.countP (strongAt s.heap.refs)) ∧
    (∀ r ref, s.heap.refs r = some ref → (∃ n, s.heap.nodes ref.node = some n ∧ r ∈ n.refs) ∧
        binderGetRef s.heap ref.proc ref.desc = .ok (some r) ∧
        ∀ kzalloc, binderGetRefForNode rb s.heap ref.proc ref.node kzalloc = .ok (some r, s.heap)) ∧
    ∀ e : RefEvent, e.Valid s → e.InRange s → ∃ t, e.exec rb s = .ok t ∧
      ∀ a, s.heap.nodes a ≠ none → t.heap.nodes a = none →
        (∀ r ref, t.heap.refs r = some ref → ref.node ≠ a) ∧ ∀ strong, t.holds strong a = 0 := by
  have hc := consistent_of_reach hreach
  refine ⟨hc.counted.internal, ?_, ?_⟩
  · intro r ref hr
    have hk := refKeys_of_eq hr
    refine ⟨hc.node_of_ref hr, ?_, ?_⟩
    · obtain ⟨res, hrun, hres⟩ := getRef_spec hc.linked ref.proc ref.desc
      rw [hrun, (hres r).mpr ⟨ref.key, hk, rfl, rfl⟩]
    · intro kzalloc
      obtain ⟨res, hrun, hres⟩ := searchTree_spec (hc.linked.refTrees ref.proc).2 nodeOf_eq ref.node
      rw [binderGetRefForNode, hrun, (hres r).mpr ⟨ref.key, hk, rfl, rfl⟩]
      rfl
  intro e hvalid hrange
  obtain ⟨t, hrun, hc'⟩ := exec_spec rb hc hvalid hrange
  refine ⟨t, hrun, fun a _ hgone => ⟨?_, hc'.held.gone a hgone⟩⟩
  rintro r ref hr rfl
  obtain ⟨n, hn, -⟩ := hc'.node_of_ref hr
  rw [hgone] at hn
  cases hn

end

/-! ### The counts are not bounded -/

def RefState.after (s : RefState) (e : RefEvent) : RefState :=
  match e.exec Rebalance.plain s with
  | .ok t => t
  | .error _ => s

lemma RefState.exec_after {s : RefState} {e : RefEvent}
    (hok : (e.exec Rebalance.plain s).toBool = true) :
    e.exec Rebalance.plain s = .ok (s.after e) := by
  unfold RefState.after
  split
  · next t ht => exact ht
  · next f hf =>
    rw [hf] at hok
    cases hok

def emptyState : RefState where
  heap := ⟨fun _ => none, fun _ => none, fun _ => ⟨.nil, .nil, .nil⟩, none, fun _ => []⟩
  holds _ _ := 0

/-- The process 1 has a node, and a thread of it sends it to the process 2, which now has a strong
reference. -/
def sharedState : RefState :=
  ((emptyState.after (.newNode 1 16 0 (some 64))).after (.getRefForNode 2 64 (some 128))).after
    (.incRef 128 true (some (.thread 0)))

lemma sharedState_reach : Reach RefState.Start (RefState.SafeStep Rebalance.plain) sharedState := by
  have hstart : Reach RefState.Start (RefState.SafeStep Rebalance.plain) emptyState :=
    Reach.start ⟨fun _ => rfl, fun _ => rfl, fun _ => rfl, rfl, fun _ _ => rfl⟩
  have hnode : Reach RefState.Start (RefState.SafeStep Rebalance.plain)
      (emptyState.after (.newNode 1 16 0 (some 64))) := by
    refine Reach.next (.newNode 1 16 0 (some 64)) hstart ⟨trivial, ?_, RefState.exec_after rfl⟩
    rintro a ⟨⟩
    exact ⟨rfl, by decide, rfl, rfl⟩
  have href : Reach RefState.Start (RefState.SafeStep Rebalance.plain)
      ((emptyState.after (.newNode 1 16 0 (some 64))).after (.getRefForNode 2 64 (some 128))) := by
    refine Reach.next (.getRefForNode 2 64 (some 128)) hnode
      ⟨trivial, ⟨rfl, ?_⟩, RefState.exec_after rfl⟩
    rintro a ⟨⟩
    exact ⟨rfl, by decide, rfl, rfl⟩
  refine Reach.next (.incRef 128 true (some (.thread 0))) href ⟨?_, rfl, RefState.exec_after rfl⟩
  rintro ref ⟨⟩
  decide

theorem sharedState_refs : (∀ a n, sharedState.heap.nodes a = some n →
      n.internalStrongRefs = n.refs.countP (strongAt sharedState.heap.refs)) ∧
    sharedState.heap.refs 128 = some ⟨2, 64, 1, 1, 0⟩ ∧
      (sharedState.heap.nodes 64).map Node.internalStrongRefs = some 1 :=
  ⟨(refs_of_reach sharedState_reach).1, rfl, rfl⟩

/-- `binder_get_ref_for_node` returns, so the `BUG()` of its insertion is not reached. The result is
the reference that the process has for the node. Without one, the reference is new and has the least
descriptor that no reference of the process has, from 0 for the context manager and from 1 for
another node. -/
theorem getRefForNode_least (rb : Rebalance Nat) {h : Heap} (hs : h.Sound) (proc : Nat) {node : Nat}
    {n : Node}
    (hnode : h.nodes node = some n) {kzalloc : Option Nat} (hfresh : ∀ a ∈ kzalloc, h.Fresh a) :
    ∃ res h', binderGetRefForNode rb h proc node kzalloc = .ok (res, h') ∧ h'.Sound ∧
      (∀ r ref, h.refs r = some ref → ref.proc = proc → ref.node = node → res = some r ∧ h' = h) ∧
      ((∀ r ref, h.refs r = some ref → ref.proc = proc → ref.node ≠ node) → res = kzalloc ∧
        ∀ new ∈ kzalloc, ∃ desc,
          IsLeast (h.unusedDescs proc (if h.contextMgrNode = some node then 0 else 1)) desc ∧
            h'.refs = update h.refs new (some ⟨proc, node, desc, 0, 0⟩)) := by
  obtain ⟨res, h', hrun, hadds, -, hold, hnew⟩ := getRefForNode_spec rb hs proc hnode hfresh
  exact ⟨res, h', hrun, hadds.sound, hold, hnew⟩

/-- The process 1 has a second node, to which the process 2 has no reference. -/
def twoNodes : RefState := sharedState.after (.newNode 1 32 0 (some 80))

lemma twoNodes_reach : Reach RefState.Start (RefState.SafeStep Rebalance.plain) twoNodes := by
  refine Reach.next (.newNode 1 32 0 (some 80)) sharedState_reach
    ⟨trivial, ?_, RefState.exec_after rfl⟩
  rintro a ⟨⟩
  exact ⟨rfl, by decide, rfl, rfl⟩

/-- The process 2 gets its reference to the first node, and a new one to the second. The descriptor
is 2, since 1 is used. -/
theorem twoNodes_refs :
    binderGetRefForNode Rebalance.plain twoNodes.heap 2 64 (some 192) =
      .ok (some 128, twoNodes.heap) ∧
    IsLeast (twoNodes.heap.unusedDescs 2 1) 2 ∧
    ∃ h', binderGetRefForNode Rebalance.plain twoNodes.heap 2 80 (some 192) = .ok (some 192, h') ∧
      h'.refs 192 = some ⟨2, 80, 2, 0, 0⟩ := by
  have hsound := (consistent_of_reach twoNodes_reach).linked
  have hfresh : ∀ a ∈ some 192, twoNodes.heap.Fresh a := by
    rintro a ⟨⟩
    exact ⟨rfl, by decide, rfl, rfl⟩
  obtain ⟨res, h', hrun, -, hold, -⟩ := getRefForNode_least Rebalance.plain hsound 2
    (show twoNodes.heap.nodes 64 = some _ from rfl) hfresh
  obtain ⟨rfl, rfl⟩ := hold 128 _ rfl rfl rfl
  obtain ⟨res, h', hrun', -, -, hnew⟩ := getRefForNode_least Rebalance.plain hsound 2
    (show twoNodes.heap.nodes 80 = some _ from rfl) hfresh
  have hrefs : ∀ r ref, twoNodes.heap.refs r = some ref → ref.proc = 2 → ref.node ≠ 80 := by
    intro r ref href _
    have hall : twoNodes.heap.refs = update (update (fun _ => none) 128 (some ⟨2, 64, 1, 0, 0⟩)) 128
        (some ⟨2, 64, 1, 1, 0⟩) := rfl
    rw [hall, update_idem] at href
    by_cases hr : r = 128
    · rw [hr, update_self] at href
      cases href
      decide
    · rw [update_of_ne hr] at href
      cases href
  obtain ⟨rfl, hdesc⟩ := hnew hrefs
  obtain ⟨desc, hleast, hupdate⟩ := hdesc 192 rfl
  have hnewRef : h'.refs 192 = some ⟨2, 80, 2, 0, 0⟩ := by
    have hmade : (binderGetRefForNode Rebalance.plain twoNodes.heap 2 80 (some 192)).toOption.map
        (fun out => out.2.refs 192) = some (some ⟨2, 80, 2, 0, 0⟩) := rfl
    rw [hrun'] at hmade
    exact Option.some.inj hmade
  rw [hupdate, update_self] at hnewRef
  cases hnewRef
  exact ⟨hrun, hleast, h', hrun', by rw [hupdate, update_self]⟩

def sharedWith (c : Int) : RefState :=
  { sharedState with heap := sharedState.heap.setRef 128 ⟨2, 64, 1, c, 0⟩ }

lemma sharedWith_inc {c : Int} (hc : c ≠ 0) :
    RefState.Step Rebalance.plain (.incRef 128 true none) (sharedWith c)
      (sharedWith (wrapInt (c + 1))) := by
  refine ⟨rfl, ?_⟩
  have hr : (sharedWith c).heap.refs 128 = some ⟨2, 64, 1, c, 0⟩ := rfl
  have hinc : binderIncRef (sharedWith c).heap 128 true none =
      .ok (0, (sharedWith c).heap.setRef 128 ⟨2, 64, 1, wrapInt (c + 1), 0⟩) := by
    rw [binderIncRef_eq hr, if_neg (show Ref.count ⟨2, 64, 1, c, 0⟩ true ≠ 0 from hc)]
    rfl
  have hset : (sharedWith c).heap.setRef 128 ⟨2, 64, 1, wrapInt (c + 1), 0⟩ =
      (sharedWith (wrapInt (c + 1))).heap := by
    simp [sharedWith, Heap.setRef]
  rw [RefEvent.exec, hinc, hset]
  rfl

lemma sharedWith_reach (k : Nat) (hk : (k : Int) < intMax) :
    Reach RefState.Start (RefState.Step Rebalance.plain) (sharedWith (k + 1)) := by
  induction k with
  | zero =>
    have hsame : sharedWith ((0 : Nat) + 1) = sharedState := by
      have hr : some ⟨2, 64, 1, ((0 : Nat) : Int) + 1, 0⟩ = sharedState.heap.refs 128 := rfl
      simp only [sharedWith, Heap.setRef, hr, update_eq_self]
    rw [hsame]
    exact sharedState_reach.mono fun _ _ _ hstep => hstep.2
  | succ k ih =>
    have hstep := sharedWith_inc (c := (k : Int) + 1) (by omega)
    have hwrap : wrapInt ((k : Int) + 1 + 1) = (k : Int) + 1 + 1 := by
      unfold intMax at hk
      exact wrapInt_of_mem (by omega) (by omega)
    rw [hwrap] at hstep
    exact Reach.next _ (ih (by omega)) hstep

/-- After `2 ^ 31` calls the strong count is negative. The reference is in the list of its node,
which has a strong count of one and no strong reference. -/
theorem strong_overflow :
    ∃ s a n, Reach RefState.Start (RefState.Step Rebalance.plain) s ∧ s.heap.nodes a = some n ∧
      n.internalStrongRefs ≠ n.refs.countP (strongAt s.heap.refs) := by
  have hstep := sharedWith_inc (c := ((2 ^ 31 - 2 : Nat) : Int) + 1) (by omega)
  refine ⟨_, 64, _, Reach.next _ (sharedWith_reach (2 ^ 31 - 2) (by decide)) hstep, rfl, ?_⟩
  decide

end Wm8850.Binder
