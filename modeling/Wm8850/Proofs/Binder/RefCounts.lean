import Wm8850.Proofs.Binder.Refs

/-! # The calls on references

A count of a reference changes by one (`incRef_spec`, `decRef_spec`), and the strong count of its
node changes with it when the reference becomes strong or stops being strong. -/

namespace Wm8850.Binder

open Lib Function List Option Heap

variable {l : List Nat} {a : Nat} {strong : Bool} {n : Node} {rb : Rebalance Nat}

/-! ### The number of strong references -/

section
variable {refs : Nat → Option Ref} {r : Nat}

lemma strongAt_update_of_ne {x : Option Ref} {q : Nat} (hq : q ≠ r) :
    strongAt (update refs r x) q = strongAt refs q := by
  simp [strongAt, update_of_ne hq]

lemma countP_update_of_not_mem (refs : Nat → Option Ref) (hr : r ∉ l) (x : Option Ref) :
    l.countP (strongAt (update refs r x)) = l.countP (strongAt refs) := by
  refine countP_congr ?_
  intro q hq
  rw [strongAt_update_of_ne]
  rintro rfl
  exact hr hq

lemma countP_of_mem (hr : r ∈ l) (f : Nat → Bool) :
    l.countP f = (l.erase r).countP f + if f r then 1 else 0 := by
  rw [(perm_cons_erase hr).countP_eq f, countP_cons]

lemma countP_setRef (hnodup : l.Nodup) (hmem : r ∈ l) {ref : Ref} (hr : refs r = some ref)
    (ref' : Ref) :
    (l.countP (strongAt (update refs r (some ref'))) + if 0 < ref.strong then 1 else 0 : Int) =
      l.countP (strongAt refs) + if 0 < ref'.strong then 1 else 0 := by
  have hrest := countP_update_of_not_mem refs (hnodup.not_mem_erase (a := r)) (some ref')
  have hold : strongAt refs r = decide (0 < ref.strong) := by simp [strongAt, hr]
  have hnew : strongAt (update refs r (some ref')) r = decide (0 < ref'.strong) := by
    simp [strongAt]
  rw [countP_of_mem hmem, countP_of_mem hmem (strongAt refs), hrest, hold, hnew]
  by_cases hs : 0 < ref.strong <;> by_cases hs' : 0 < ref'.strong <;> simp [hs, hs']

end

/-- A reference and its node were written, and only counts changed. -/
structure Heap.Recounts (h : Heap) (r : Nat) (ref ref' : Ref) (m m' : Node) (h' : Heap) : Prop where
  refs : h'.refs = update h.refs r (some ref')
  nodes : h'.nodes = update h.nodes ref.node (some m')
  procs : h'.procs = h.procs
  contextMgrNode : h'.contextMgrNode = h.contextMgrNode
  key : ref'.key = ref.key
  nodeKey : m'.key = m.key
  cookie : m'.cookie = m.cookie

section
variable {h h' : Heap} {holds : Bool → Nat → Nat} {r : Nat} {ref ref' : Ref} {m m' : Node}

lemma Heap.Recounts.sound (hw : h.Recounts r ref ref' m m' h') (hs : h.Sound)
    (hr : h.refs r = some ref) (hm : h.nodes ref.node = some m) : h'.Sound := by
  unfold Heap.Sound
  rw [nodeKeys_update hw.nodes, refKeys_update hw.refs, hw.procs, map_some, map_some,
    hw.key, hw.nodeKey, ← nodeKeys_of_eq hm, ← refKeys_of_eq hr, update_eq_self,
    update_eq_self]
  exact hs

lemma Heap.Counted.writeRef (hc : h.Counted) {x : Option Ref} (hrefs : h'.refs = update h.refs r x)
    (hnodes : h'.nodes = update h.nodes a (some m'))
    (hself : m'.internalStrongRefs = m'.refs.countP (strongAt (update h.refs r x)))
    (hother : ∀ b m, b ≠ a → h.nodes b = some m → r ∉ m.refs)
    (hrange : ∀ ref ∈ x, ∀ strong, 0 ≤ ref.count strong ∧ ref.count strong ≤ intMax) :
    h'.Counted := by
  refine ⟨fun b m hb => ?_, fun q ref hq => ?_⟩
  · rw [hnodes] at hb
    rw [hrefs]
    rcases update_some_eq_some.mp hb with ⟨rfl, rfl⟩ | ⟨hba, hb⟩
    · exact hself
    · rw [countP_update_of_not_mem _ (hother b m hba hb)]
      exact hc.internal b m hb
  rw [hrefs] at hq
  by_cases hqr : q = r
  · subst hqr
    rw [update_self] at hq
    exact hrange ref hq
  · rw [update_of_ne hqr] at hq
    exact hc.count q ref hq

namespace Heap.Consistent

section
variable (hc : h.Consistent holds)
include hc

lemma node_of_ref (hr : h.refs r = some ref) :
    ∃ m, h.nodes ref.node = some m ∧ r ∈ m.refs := Sound.node_of_ref hc.linked hr

lemma not_mem_refs (hr : h.refs r = some ref) {b : Nat}
    (hb : h.nodes b = some m) (hne : b ≠ ref.node) : r ∉ m.refs := by
  intro hmem
  obtain ⟨k, hk, hkb⟩ := (hc.linked.mem_refs b _ (nodeKeys_of_eq hb) r).mp hmem
  rw [refKeys_of_eq hr] at hk
  cases hk
  exact hne hkb.symm

lemma internal_mem (ha : h.nodes a = some m) :
    0 ≤ m.internalStrongRefs ∧ m.internalStrongRefs ≤ maxRefs := by
  rw [hc.counted.internal a m ha]
  have hle := hc.linked.length_refs_le (nodeKeys_of_eq ha)
  have hcount : m.refs.countP (strongAt h.refs) ≤ m.refs.length := countP_le_length
  exact ⟨by omega, by exact_mod_cast hcount.trans hle⟩

lemma recounts (hr : h.refs r = some ref) (hm : h.nodes ref.node = some m)
    (hw : h.Recounts r ref ref' m m' h')
    (hlocal : ∀ strong, m'.localRefs strong = m.localRefs strong)
    (hrange : ∀ strong, 0 ≤ ref'.count strong ∧ ref'.count strong ≤ intMax)
    (hinternal : m'.internalStrongRefs + (if 0 < ref.strong then 1 else 0) =
      m.internalStrongRefs + if 0 < ref'.strong then 1 else 0) : h'.Consistent holds := by
  refine ⟨hw.sound hc.linked hr hm, hc.counted.writeRef hw.refs hw.nodes ?_
    (fun b x hbr hb => hc.not_mem_refs hr hb hbr) ?_,
    hc.held.write_same hm hw.nodes hw.contextMgrNode hlocal⟩
  · have hmem : r ∈ m.refs := (hc.linked.mem_refs _ _ (nodeKeys_of_eq hm) r).mpr
      ⟨ref.key, refKeys_of_eq hr, rfl⟩
    have hnodup : m.refs.Nodup := hc.linked.nodup _ _ (nodeKeys_of_eq hm)
    have hcount := countP_setRef hnodup hmem hr ref'
    have hold := hc.counted.internal _ m hm
    have hlist : m'.refs = m.refs := congrArg NodeKey.refs hw.nodeKey
    rw [hlist]
    omega
  · rintro x ⟨⟩
    exact hrange

end

end Heap.Consistent

lemma Heap.Recounts.extends (hw : h.Recounts r ref ref' m m' h') (hr : h.refs r = some ref)
    (hm : h.nodes ref.node = some m) : h.Extends h' ∧ h'.Extends h := by
  refine extends_of_write ?_ hw.nodes hw.contextMgrNode hm hw.nodeKey hw.cookie
  rw [refKeys_update hw.refs, map_some, hw.key, ← refKeys_of_eq hr, update_eq_self]

lemma Heap.recounts_setRef (hm : h.nodes ref.node = some m) (hkey : ref'.key = ref.key) :
    h.Recounts r ref ref' m m (h.setRef r ref') := by
  refine ⟨rfl, ?_, rfl, rfl, hkey, rfl, rfl⟩
  rw [← hm, update_eq_self]
  rfl

end

/-! ### `binder_inc_ref` and `binder_dec_ref` -/

def Ref.setCount (ref : Ref) (strong : Bool) (c : Int) : Ref :=
  if strong then { ref with strong := c } else { ref with weak := c }

lemma Ref.setCount_key (ref : Ref) (strong : Bool) (c : Int) :
    (ref.setCount strong c).key = ref.key := by
  cases strong <;> rfl

lemma Ref.setCount_count (ref : Ref) (strong kind : Bool) (c : Int) :
    (ref.setCount strong c).count kind = if kind = strong then c else ref.count kind := by
  cases strong <;> cases kind <;> rfl

section
variable {h h' : Heap} {holds : Bool → Nat → Nat} {r : Nat} {ref : Ref} {m : Node}
  (hr : h.refs r = some ref)
include hr

lemma countOf_of_eq (strong : Bool) : h.countOf strong r = (ref.count strong).toNat := by
  simp [Heap.countOf, hr]

lemma countOf_setCount {c : Int}
    (hrefs : h'.refs = update h.refs r (some (ref.setCount strong c))) (kind : Bool) (q : Nat) :
    h'.countOf kind q = if kind = strong ∧ q = r then c.toNat else h.countOf kind q := by
  by_cases hq : q = r
  · subst hq
    rw [countOf_of_eq (by rw [hrefs, update_self]), Ref.setCount_count, countOf_of_eq hr]
    by_cases hk : kind = strong
    · simp [hk]
    · simp [hk]
  · rw [if_neg fun hand => hq hand.2, Heap.countOf, hrefs, update_of_ne hq, Heap.countOf]

lemma binderIncRef_eq (strong : Bool) (targetList : Option Todo) :
    binderIncRef h r strong targetList = do
      let done ← (if ref.count strong = 0 then binderIncNode h ref.node strong true targetList
        else pure (0, h))
      if done.1 ≠ 0 then return done
      else return (0, done.2.setRef r (ref.setCount strong (wrapInt (ref.count strong + 1)))) := by
  unfold binderIncRef
  rw [ref_of_eq hr]
  cases strong <;> rfl

lemma Heap.Counted.setCount (hc : h.Counted) {c : Int} (hnonneg : 0 ≤ c)
    (hle : c ≤ intMax) (kind : Bool) : 0 ≤ (ref.setCount strong c).count kind ∧
      (ref.setCount strong c).count kind ≤ intMax := by
  rw [Ref.setCount_count]
  split
  · exact ⟨hnonneg, hle⟩
  · exact hc.count r ref hr kind

lemma incRef_spec (hc : h.Consistent holds) (strong : Bool)
    (hrange : ref.count strong ≠ intMax) (targetList : Option Todo) :
    ∃ ret h', binderIncRef h r strong targetList = .ok (ret, h') ∧ h'.Consistent holds ∧
      h.Extends h' ∧ ((ret = 0 ∧ ∀ kind q, h'.countOf kind q =
          if kind = strong ∧ q = r then h.countOf strong r + 1 else h.countOf kind q) ∨
        (ret ≠ 0 ∧ targetList = none ∧ h.countOf strong r = 0 ∧ h'.countOf = h.countOf)) := by
  obtain ⟨m, hm, -⟩ := hc.node_of_ref hr
  obtain ⟨hnonneg, hle⟩ := hc.counted.count r ref hr strong
  have hlt : ref.count strong < intMax := lt_of_le_of_ne hle hrange
  have hwrap : wrapInt (ref.count strong + 1) = ref.count strong + 1 := by
    unfold intMax at hlt
    exact wrapInt_of_mem (by omega) (by omega)
  obtain ⟨hint0, hint1⟩ := hc.internal_mem hm
  have hwrapInt : wrapInt (m.internalStrongRefs + 1) = m.internalStrongRefs + 1 := by
    unfold maxRefs at hint1
    exact wrapInt_of_mem (by omega) (by omega)
  obtain ⟨ref', href'⟩ : ∃ ref', ref' = ref.setCount strong (ref.count strong + 1) := ⟨_, rfl⟩
  have hkey : ref'.key = ref.key := by rw [href', Ref.setCount_key]
  have hrange' : ∀ kind, 0 ≤ ref'.count kind ∧ ref'.count kind ≤ intMax := by
    rw [href']
    exact hc.counted.setCount hr (by omega) (by omega)
  -- the counts of the written reference, whatever happened to the node before
  have hcount : ∀ h'' : Heap, h''.refs = update h.refs r (some ref') →
      ∀ kind q, h''.countOf kind q =
      if kind = strong ∧ q = r then h.countOf strong r + 1 else h.countOf kind q := by
    intro h'' hrefs kind q
    rw [href'] at hrefs
    rw [countOf_setCount hr hrefs, countOf_of_eq hr strong,
      show (ref.count strong + 1).toNat = (ref.count strong).toNat + 1 by omega]
  rw [binderIncRef_eq hr, hwrap, ← href']
  by_cases hzero : ref.count strong = 0
  · rw [if_pos hzero]
    obtain ⟨ret, h1, hrun, ⟨hret, hw⟩ | ⟨hret, hnone, -, hw⟩⟩ :=
      incNode_spec strong true hm targetList
    · obtain ⟨w, hnodes⟩ := hw.nodes
      have hwrite : h.Recounts r ref ref' m { m.inc strong true with work := w }
        (h1.setRef r ref') :=
        ⟨by rw [← hw.refs]; rfl, hnodes, hw.procs, hw.contextMgrNode, hkey, m.inc_key strong true,
          by cases strong <;> rfl⟩
      refine ⟨0, h1.setRef r ref', ?_, hc.recounts hr hm hwrite ?_ hrange' ?_,
        (hwrite.extends hr hm).1,
        .inl ⟨rfl, hcount _ hwrite.refs⟩⟩
      · rw [hrun, hret.resolve_right (by decide)]
        rfl
      · intro kind
        cases strong <;> cases kind <;> rfl
      -- a strong reference more, or a weak one
      rw [href']
      cases strong with
      | true =>
        have hs : ref.strong = 0 := hzero
        show wrapInt (m.internalStrongRefs + 1) + _ = _ + if 0 < ref.strong + 1 then 1 else 0
        rw [hwrapInt, hs]
        simp
      | false => rfl
    refine ⟨ret, h1, ?_, hc.rewrites_same hm hw rfl rfl fun _ => rfl, (hw.extends hm rfl rfl).1,
      .inr ⟨hret, hnone, ?_, hw.countOf⟩⟩
    · rw [hrun, ok_bind]
      rw [if_pos hret]
      rfl
    · rw [countOf_of_eq hr, hzero]
      rfl
  rw [if_neg hzero]
  have hwrite : h.Recounts r ref ref' m m (h.setRef r ref') := recounts_setRef hm hkey
  refine ⟨0, _, rfl, hc.recounts hr hm hwrite (fun _ => rfl) hrange' ?_, (hwrite.extends hr hm).1,
    .inl ⟨rfl, hcount _ hwrite.refs⟩⟩
  -- the reference was strong before, or it is the weak count that changes
  rw [href']
  cases strong with
  | true =>
    have hs : 0 < ref.strong := lt_of_le_of_ne hnonneg (Ne.symm hzero)
    show _ + _ = _ + if 0 < ref.strong + 1 then 1 else 0
    rw [if_pos hs, if_pos (by omega)]
  | false => rfl

/-! ### A reference is deleted -/

omit hr

lemma Heap.Rewrites.freeRef (hw : h.Rewrites a n h') (r : Nat) :
    (h.freeRef r).Rewrites a n (h'.freeRef r) := by
  refine ⟨hw.nodes, ?_, hw.procs, hw.contextMgrNode, hw.queued⟩
  show update h'.refs r none = update h.refs r none
  rw [hw.refs]

lemma Heap.Frees.freeRef {proc : Option Nat} (hf : Heap.Frees rb h a proc h') (r : Nat) :
    Heap.Frees rb (h.freeRef r) a proc (h'.freeRef r) := by
  refine ⟨hf.nodes, ?_, hf.refTrees, hf.nodeTree, hf.contextMgrNode, hf.queued⟩
  show update h'.refs r none = update h.refs r none
  rw [hf.refs]

lemma decNode_strong (rb : Rebalance Nat) (ha : h.nodes a = some n) (hrefs : n.refs ≠ []) :
    ∃ h', binderDecNode rb h a true true = .ok h' ∧ h.Rewrites a (n.dec true true) h' := by
  obtain ⟨h', hrun, hw | ⟨-, hnil, -⟩⟩ := decNode_spec rb true true ha
  · exact ⟨h', hrun, hw⟩
  · exact absurd hnil hrefs

/-- As `binder_delete_ref` leaves the reference before it looks at the node for the last time. -/
structure Heap.Unlinks (rb : Rebalance Nat) (h : Heap) (r : Nat) (ref : Ref) (m : Node) (h' : Heap)
    (n : Node) : Prop where
  refs : h'.refs = h.refs
  nodes : h'.nodes = update h.nodes ref.node (some n)
  procs : h'.procs = update h.procs ref.proc { h.procs ref.proc with
    refsByDesc := rb.erase r (h.procs ref.proc).refsByDesc
    refsByNode := rb.erase r (h.procs ref.proc).refsByNode }
  contextMgrNode : h'.contextMgrNode = h.contextMgrNode
  queued : ∀ l, h'.queued l = h.queued l
  key : n.key = { m.key with refs := m.refs.erase r }
  cookie : n.cookie = m.cookie
  localRefs : ∀ kind, n.localRefs kind = m.localRefs kind
  internal : n.internalStrongRefs =
    if ref.strong = 0 then m.internalStrongRefs else wrapInt (m.internalStrongRefs - 1)

include hr in
lemma deleteRef_run (rb : Rebalance Nat) (hm : h.nodes ref.node = some m) (hmem : r ∈ m.refs) :
    ∃ h3 n, h.Unlinks rb r ref m h3 n ∧ ∀ h4, binderDecNode rb h3 ref.node false true = .ok h4 →
        binderDeleteRef rb h r = .ok (h4.freeRef r) := by
  obtain ⟨h1, hh1⟩ : ∃ h1, h1 = h.setTrees ref.proc { h.procs ref.proc with
      refsByDesc := rb.erase r (h.procs ref.proc).refsByDesc
      refsByNode := rb.erase r (h.procs ref.proc).refsByNode } := ⟨_, rfl⟩
  have hm1 : h1.nodes ref.node = some m := by rw [hh1]; exact hm
  -- the strong count, while the reference is still in the list
  obtain ⟨h2, n2, hrun2, hw, hkey, hcookie, hlocal, hint⟩ : ∃ h2 n2,
      (if ref.strong ≠ 0 then binderDecNode rb h1 ref.node true true else pure h1) = .ok h2 ∧
        h1.Rewrites ref.node n2 h2 ∧ n2.key = m.key ∧ n2.cookie = m.cookie ∧
          (∀ kind, n2.localRefs kind = m.localRefs kind) ∧
          n2.internalStrongRefs =
            if ref.strong = 0 then m.internalStrongRefs
              else wrapInt (m.internalStrongRefs - 1) := by
    by_cases hstrong : ref.strong = 0
    · rw [if_neg (not_not.mpr hstrong), if_pos hstrong]
      exact ⟨h1, m, rfl, rewrites_self hm1, rfl, rfl, fun _ => rfl, rfl⟩
    · rw [if_pos hstrong, if_neg hstrong]
      obtain ⟨h2, hrun, hw⟩ := decNode_strong rb hm1 (ne_nil_of_mem hmem)
      exact ⟨h2, _, hrun, hw, m.dec_key true true, rfl, fun kind => by cases kind <;> rfl, rfl⟩
  obtain ⟨w, hget⟩ := hw.get
  obtain ⟨w', hnodes⟩ := hw.nodes
  let n : Node := { n2 with work := w, refs := n2.refs.erase r }
  refine ⟨h2.setNode ref.node n, n, ⟨?_, ?_, ?_, ?_, fun l => ?_, ?_, hcookie, hlocal, hint⟩, ?_⟩
  · show h2.refs = _
    rw [hw.refs, hh1]
    rfl
  · show update h2.nodes ref.node _ = _
    rw [hnodes, update_idem, hh1]
    rfl
  · show h2.procs = _
    rw [hw.procs, hh1]
    rfl
  · show h2.contextMgrNode = _
    rw [hw.contextMgrNode, hh1]
    rfl
  · rw [show (h2.setNode ref.node _).queued l = h2.queued l from rfl, hw.queued, hh1]
    rfl
  · show NodeKey.mk n2.key.proc n2.key.ptr (n2.key.refs.erase r) = _
    rw [hkey]
    rfl
  intro h4 hrun4
  unfold binderDeleteRef
  rw [ref_of_eq hr, ok_bind]
  simp only
  rw [← hh1, hrun2, ok_bind, node_of_eq hget, ok_bind, hrun4]
  rfl

lemma Heap.Unlinks.refs_freeRef (hu : h.Unlinks rb r ref m h' n) :
    (h'.freeRef r).refs = update h.refs r none := by
  show update h'.refs r none = _
  rw [hu.refs]

lemma Heap.Unlinks.extends (hu : h.Unlinks rb r ref m h' n)
    (hm : h.nodes ref.node = some m) : (h'.freeRef r).Extends h := by
  refine ⟨?_, ?_, hu.contextMgrNode.symm⟩
  · intro q k hk
    rw [refKeys_update hu.refs_freeRef] at hk
    exact (update_none_eq_some.mp hk).2
  intro b x hb
  change h'.nodes b = some x at hb
  rw [hu.nodes] at hb
  rcases update_some_eq_some.mp hb with ⟨rfl, rfl⟩ | ⟨-, hb⟩
  · exact ⟨m, hm, (congrArg NodeKey.proc hu.key).symm, (congrArg NodeKey.ptr hu.key).symm,
      hu.cookie.symm⟩
  · exact ⟨x, hb, rfl, rfl, rfl⟩

include hr

lemma Heap.Unlinks.sound (hu : h.Unlinks rb r ref m h' n) (hs : h.Sound)
    (hm : h.nodes ref.node = some m) :
    (h'.freeRef r).Sound := by
  have hnodes : (h'.freeRef r).nodes = _ := hu.nodes
  have hprocs : (h'.freeRef r).procs = _ := hu.procs
  unfold Heap.Sound
  rw [nodeKeys_update hnodes, refKeys_update hu.refs_freeRef, hprocs, map_some, hu.key]
  exact hs.deleteRef rb (refKeys_of_eq hr) (nodeKeys_of_eq hm)

/-- The strong count of the node is the number of its strong references, so the one that it gives up
does not wrap. -/
theorem Heap.Consistent.unlinks (hc : h.Consistent holds)
    (hm : h.nodes ref.node = some m) (hu : h.Unlinks rb r ref m h' n) :
    (h'.freeRef r).Consistent holds := by
  refine ⟨hu.sound hr hc.linked hm, hc.counted.writeRef hu.refs_freeRef hu.nodes ?_
    (fun b x hbr hb => hc.not_mem_refs hr hb hbr) (by simp),
    hc.held.write_same hm hu.nodes hu.contextMgrNode hu.localRefs⟩
  have hmem : r ∈ m.refs := (hc.linked.mem_refs _ _ (nodeKeys_of_eq hm) r).mpr
    ⟨ref.key, refKeys_of_eq hr, rfl⟩
  have hnodup : m.refs.Nodup := hc.linked.nodup _ _ (nodeKeys_of_eq hm)
  have hcount := countP_of_mem hmem (strongAt h.refs)
  have hstrong : strongAt h.refs r = decide (0 < ref.strong) := by simp [strongAt, hr]
  have hold := hc.counted.internal _ m hm
  have hlist : n.refs = m.refs.erase r := congrArg NodeKey.refs hu.key
  rw [hlist, countP_update_of_not_mem _ hnodup.not_mem_erase, hu.internal]
  simp only [hstrong, decide_eq_true_eq] at hcount
  obtain ⟨hint0, hint1⟩ := hc.internal_mem hm
  have hnonneg : 0 ≤ ref.strong := (hc.counted.count r ref hr true).1
  by_cases hzero : ref.strong = 0
  · rw [if_neg (by omega)] at hcount
    omega
  · unfold maxRefs at hint1
    rw [if_pos (by omega)] at hcount
    rw [wrapInt_of_mem (by omega) (by omega)]
    omega

variable (rb)

lemma deleteRef_spec (hs : h.Sound) : ∃ h', binderDeleteRef rb h r = .ok h' ∧ h.Keeps h' ∧
    h'.Extends h ∧
      h'.refs = update h.refs r none ∧ ∀ holds, h.Consistent holds → h'.Consistent holds := by
  obtain ⟨m, hm, hmem⟩ := hs.node_of_ref hr
  obtain ⟨h3, n, hu, hrun⟩ := deleteRef_run hr rb hm hmem
  have hs3 := hu.sound hr hs hm
  have hext3 := hu.extends hm
  have hget : h3.nodes ref.node = some n := by rw [hu.nodes, update_self]
  obtain ⟨h4, hrun4, hresult⟩ := decNode_spec rb false true hget
  refine ⟨h4.freeRef r, hrun h4 hrun4, ?_⟩
  rcases hresult with hw | ⟨hf, hnil, hzero⟩
  · have hw' := hw.freeRef r
    exact ⟨⟨hs3.rewrites hget hw' rfl, fun l => (hw.queued l).trans (hu.queued l)⟩,
      (hw'.extends hget rfl rfl).2.trans hext3, hw'.refs.trans hu.refs_freeRef,
      fun _ hc => (hc.unlinks hr hm hu).rewrites_same hget hw' rfl rfl fun _ => rfl⟩
  · have hf' := hf.freeRef r
    exact ⟨⟨hs3.frees hget hf' hnil, fun l => (hf.queued l).trans (hu.queued l)⟩,
      hf'.extends.trans hext3, hf'.refs.trans hu.refs_freeRef,
      fun _ hc => (hc.unlinks hr hm hu).frees_unheld hget hf' hnil hzero⟩

lemma decCount_spec (hc : h.Consistent holds) (hpos : ref.count strong ≠ 0) {ref' : Ref}
    (href' : ref' = ref.setCount strong (ref.count strong - 1)) :
    ∃ h', (if strong ∧ ref'.strong = 0 then binderDecNode rb (h.setRef r ref') ref.node true true
          else pure (h.setRef r ref')) = .ok h' ∧
        h'.Consistent holds ∧ h'.Extends h ∧ h'.refs = update h.refs r (some ref') := by
  obtain ⟨m, hm, hmem⟩ := hc.node_of_ref hr
  obtain ⟨hint0, hint1⟩ := hc.internal_mem hm
  obtain ⟨hnonneg, hle⟩ := hc.counted.count r ref hr strong
  have hkey : ref'.key = ref.key := by rw [href', Ref.setCount_key]
  have hrange' : ∀ kind, 0 ≤ ref'.count kind ∧ ref'.count kind ≤ intMax := by
    rw [href']
    exact hc.counted.setCount hr (by omega) (by omega)
  by_cases hlast : strong ∧ ref'.strong = 0
  · rw [if_pos hlast]
    obtain ⟨rfl, hlast⟩ := hlast
    have hs : ref'.strong = ref.strong - 1 := by rw [href']; rfl
    obtain ⟨h1, hh1⟩ : ∃ h1, h1 = h.setRef r ref' := ⟨_, rfl⟩
    have hm1 : h1.nodes ref.node = some m := by rw [hh1]; exact hm
    obtain ⟨h', hrun, hw⟩ := decNode_strong rb hm1 (ne_nil_of_mem hmem)
    obtain ⟨w, hnodes⟩ := hw.nodes
    have hwrite : h.Recounts r ref ref' m { m.dec true true with work := w } h' := by
      rw [hh1] at hw hnodes
      exact ⟨hw.refs, hnodes, hw.procs, hw.contextMgrNode, hkey, rfl, rfl⟩
    rw [← hh1]
    refine ⟨h', hrun, hc.recounts hr hm hwrite (fun kind => by cases kind <;> rfl) hrange' ?_,
      (hwrite.extends hr hm).2, hwrite.refs⟩
    show wrapInt (m.internalStrongRefs - 1) + _ = _
    unfold maxRefs at hint1
    rw [wrapInt_of_mem (by omega) (by omega)]
    omega
  rw [if_neg hlast]
  have hwrite : h.Recounts r ref ref' m m (h.setRef r ref') := recounts_setRef hm hkey
  refine ⟨_, rfl, hc.recounts hr hm hwrite (fun _ => rfl) hrange' ?_, (hwrite.extends hr hm).2, rfl⟩
  cases strong with
  | true =>
    have hs : ref'.strong = ref.strong - 1 := by rw [href']; rfl
    have hne : ref'.strong ≠ 0 := fun h0 => hlast ⟨rfl, h0⟩
    change ref.strong ≠ 0 at hpos
    change 0 ≤ ref.strong at hnonneg
    rw [if_pos (by omega), if_pos (by omega)]
  | false =>
    rw [href']
    rfl

lemma binderDecRef_eq (hpos : ref.count strong ≠ 0) : binderDecRef rb h r strong = do
      let ref' := ref.setCount strong (wrapInt (ref.count strong - 1))
      let h ← (if strong ∧ ref'.strong = 0 then
          binderDecNode rb (h.setRef r ref') ref.node true true
        else pure (h.setRef r ref'))
      if ref'.strong = 0 ∧ ref'.weak = 0 then return (0, ← binderDeleteRef rb h r)
      else return (0, h) := by
  unfold binderDecRef
  rw [ref_of_eq hr, ok_bind, if_neg hpos]
  cases strong <;> rfl

lemma decRef_spec (hc : h.Consistent holds) (strong : Bool) :
    ∃ ret h', binderDecRef rb h r strong = .ok (ret, h') ∧ h'.Consistent holds ∧ h'.Extends h ∧
      ∀ kind q, h'.countOf kind q =
        if kind = strong ∧ q = r then h.countOf strong r - 1 else h.countOf kind q := by
  obtain ⟨hnonneg, hle⟩ := hc.counted.count r ref hr strong
  by_cases hzero : ref.count strong = 0
  · -- the call is refused
    refine ⟨- EINVAL, h, ?_, hc, Heap.Extends.refl h, ?_⟩
    · unfold binderDecRef
      rw [ref_of_eq hr, ok_bind, if_pos hzero]
      rfl
    intro kind q
    split
    · next hand =>
      obtain ⟨rfl, rfl⟩ := hand
      rw [countOf_of_eq hr, hzero]
      rfl
    · rfl
  have hwrap : wrapInt (ref.count strong - 1) = ref.count strong - 1 := by
    unfold intMax at hle
    exact wrapInt_of_mem (by omega) (by omega)
  obtain ⟨ref', href'⟩ : ∃ ref', ref' = ref.setCount strong (ref.count strong - 1) := ⟨_, rfl⟩
  obtain ⟨h1, hrun1, hc1, hext1, hrefs1⟩ := decCount_spec rb hr hc hzero href'
  have hget1 : h1.refs r = some ref' := by rw [hrefs1, update_self]
  have hcount : ∀ kind q, h1.countOf kind q =
      if kind = strong ∧ q = r then h.countOf strong r - 1 else h.countOf kind q := by
    intro kind q
    rw [href'] at hrefs1
    rw [countOf_setCount hr hrefs1, countOf_of_eq hr strong,
      show (ref.count strong - 1).toNat = (ref.count strong).toNat - 1 by omega]
  rw [binderDecRef_eq rb hr hzero, hwrap, ← href']
  simp only
  rw [hrun1, ok_bind]
  split
  · next hboth =>
    obtain ⟨h2, hrun2, -, hext2, hrefs2, hc2⟩ := deleteRef_spec rb hget1 hc1.linked
    refine ⟨0, h2, by rw [hrun2]; rfl, hc2 holds hc1, hext2.trans hext1, ?_⟩
    -- both counts were `0` when the reference was deleted
    intro kind q
    rw [← hcount kind q, Heap.countOf, hrefs2]
    by_cases hq : q = r
    · subst hq
      have hk : ref'.count kind = 0 := by
        cases kind with
        | true => exact hboth.1
        | false => exact hboth.2
      rw [update_self, countOf_of_eq hget1, hk]
      rfl
    · rw [update_of_ne hq]
      rfl
  · exact ⟨0, h1, rfl, hc1, hext1, hcount⟩

end

end Wm8850.Binder
