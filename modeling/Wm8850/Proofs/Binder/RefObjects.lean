import Wm8850.Proofs.Binder.RefCounts

/-! # Looking objects up, and new ones

In a consistent heap `binder_get_node` and `binder_get_ref` find exactly the objects that are there.
`binder_get_ref_for_node` gives the reference of a process for a node, or adds one without counts
under a new descriptor. -/

namespace Wm8850.Binder

open Lib Function List Heap

section
variable {h h' : Heap} {holds : Bool → Nat → Nat} {α : Type} {field : α → Nat} {owns : α → Prop}
    {objects : Nat → Option α} {t : BinaryTree Nat} {keyM : Nat → Except Fault Nat}
      {kzalloc : Option Nat}

/-! ### Lookups -/

lemma searchTree_spec (hindex : IndexOf field owns objects t)
    (hkey : ∀ a x, objects a = some x → keyM a = .ok (field x)) (k : Nat) :
    ∃ res, searchTree keyM k t = .ok res ∧
      (∀ a, res = some a ↔ ∃ x, objects a = some x ∧ owns x ∧ field x = k) := by
  have hkeys : ∀ a ∈ inorder t, keyM a = .ok (fieldAt field objects a) := by
    intro a ha
    obtain ⟨x, hx, -⟩ := (hindex.mem_iff a).mp ha
    rw [fieldAt_of_eq hx]
    exact hkey a x hx
  refine ⟨_, searchTree_eq hkeys k, fun a => ?_⟩
  constructor
  · intro hs
    obtain ⟨⟨x, hx, hxo⟩, hk⟩ := hindex.of_search hs
    rw [fieldAt_of_eq hx] at hk
    exact ⟨x, hx, hxo, hk⟩
  · rintro ⟨x, hx, hxo, rfl⟩
    have hs := hindex.search_eq ⟨x, hx, hxo⟩
    rwa [fieldAt_of_eq hx] at hs

lemma ptrOf_eq (a : Nat) (k : NodeKey) (hk : h.nodeKeys a = some k) : h.ptrOf a = .ok k.ptr := by
  obtain ⟨n, hn, rfl⟩ := nodeKeys_eq_some hk
  rw [Heap.ptrOf, node_of_eq hn]
  rfl

lemma descOf_eq (r : Nat) (k : RefKey) (hk : h.refKeys r = some k) : h.descOf r = .ok k.desc := by
  obtain ⟨ref, hr, rfl⟩ := refKeys_eq_some hk
  rw [Heap.descOf, ref_of_eq hr]
  rfl

lemma nodeOf_eq (r : Nat) (k : RefKey) (hk : h.refKeys r = some k) : h.nodeOf r = .ok k.node := by
  obtain ⟨ref, hr, rfl⟩ := refKeys_eq_some hk
  rw [Heap.nodeOf, ref_of_eq hr]
  rfl

lemma getRef_spec (hs : h.Sound) (proc desc : Nat) : ∃ res, binderGetRef h proc desc = .ok res ∧
      ∀ r, res = some r ↔ ∃ k, h.refKeys r = some k ∧ k.proc = proc ∧ k.desc = desc :=
  searchTree_spec (hs.refTrees proc).1 descOf_eq desc

/-! ### A new node -/

def Node.new (proc ptr cookie : Nat) : Node :=
  { proc := some proc, ptr := ptr, cookie := cookie, refs := [], internalStrongRefs := 0,
    localWeakRefs := 0, localStrongRefs := 0, hasStrongRef := false, hasWeakRef := false,
    hasAsyncTransaction := false, acceptFds := false, minPriority := 0, work := none }

lemma linkTree_spec (hindex : IndexOf field owns objects t)
    (hkey : ∀ a x, objects a = some x → keyM a = .ok (field x)) {new : Nat} {x : α}
    (hnew : objects new = none) (hne : ∀ a y, objects a = some y → owns y → field y ≠ field x) :
    linkTree keyM (field x) new t =
      .ok (insertLeaf (fieldAt field (update objects new (some x))) new t) := by
  have hold : ∀ a ∈ inorder t, ∃ y, objects a = some y ∧ owns y ∧
      fieldAt field (update objects new (some x)) a = field y := by
    intro a ha
    obtain ⟨y, hy, hyo⟩ := (hindex.mem_iff a).mp ha
    refine ⟨y, hy, hyo, ?_⟩
    rw [fieldAt_update_of_ne, fieldAt_of_eq hy]
    rintro rfl
    rw [hnew] at hy
    cases hy
  have hx : field x = fieldAt field (update objects new (some x)) new := (fieldAt_update new x).symm
  rw [hx]
  refine linkTree_eq ?_ ?_
  · intro a ha
    obtain ⟨y, hy, -, hfield⟩ := hold a ha
    rw [hfield]
    exact hkey a y hy
  · intro a ha
    obtain ⟨y, hy, hyo, hfield⟩ := hold a ha
    rw [hfield, ← hx]
    exact hne a y hy hyo

lemma zero_le_intMax : 0 ≤ intMax := by decide

/-- Objects may be added, and no count changes. -/
structure Heap.Adds (h h' : Heap) : Prop extends h.Grows h' where
  countOf : h'.countOf = h.countOf
  consistent : ∀ holds, h.Consistent holds → h'.Consistent holds

lemma Heap.Adds.refl (hs : h.Sound) : h.Adds h := ⟨Heap.Grows.refl hs, rfl, fun _ hc => hc⟩

def Heap.addNode (h : Heap) (rb : Rebalance Nat) (proc ptr cookie a : Nat) : Heap :=
  { h with
    nodes := update h.nodes a (some (Node.new proc ptr cookie))
    procs := update h.procs proc { h.procs proc with
      nodes := rb.insertColor a (insertLeaf (fieldAt NodeKey.ptr
        (update h.nodeKeys a (some ⟨some proc, ptr, []⟩))) a (h.procs proc).nodes) } }

lemma Heap.Sound.addNode (hs : h.Sound) (rb : Rebalance Nat) {proc ptr a : Nat} (cookie : Nat)
    (hnew : h.nodes a = none) (hptr : ∀ b n, h.nodeKeys b = some n → n.proc = some proc →
      n.ptr ≠ ptr) :
    h.Adds (h.addNode rb proc ptr cookie a) := by
  obtain ⟨h', hh'⟩ : ∃ h', h' = h.addNode rb proc ptr cookie a := ⟨_, rfl⟩
  have hnodes : h'.nodes = update h.nodes a (some (Node.new proc ptr cookie)) := by rw [hh']; rfl
  have hs' : h'.Sound := by
    unfold Heap.Sound
    rw [nodeKeys_update hnodes, hh']
    exact hs.newNode rb (by rw [Heap.nodeKeys, hnew]; rfl) hptr
  rw [← hh']
  refine ⟨⟨⟨hs', fun l => by rw [hh']; rfl⟩, fun r k hk => by rw [hh']; exact hk,
    ?_, by rw [hh']; rfl⟩,
    by rw [hh']; rfl, fun holds hc => ⟨hs', hc.counted.write hnodes (by rw [hh']; rfl) ?_,
      hc.held.write hnodes (fun b _ hb => by rw [hh'] at hb; exact hb) ?_ (by simp)
        (fun _ _ _ => rfl)
        (fun hm => hc.held.mgr a (by rw [hh'] at hm; exact hm))⟩⟩
  · intro b m hb
    refine ⟨m, ?_, rfl, rfl, rfl⟩
    rw [hnodes, update_of_ne, hb]
    rintro rfl
    rw [hnew] at hb
    cases hb
  · rintro m ⟨⟩
    rfl
  rintro m ⟨⟩ strong
  rw [hc.held.gone a hnew strong]
  cases strong with
  | true => exact ⟨rfl, zero_le_intMax⟩
  | false => exact ⟨rfl, zero_le_intMax⟩

lemma newNode_spec (rb : Rebalance Nat) (hs : h.Sound) (proc ptr cookie : Nat)
    (hfresh : ∀ a ∈ kzalloc, h.Fresh a) :
    ∃ res h', binderNewNode rb h proc ptr cookie kzalloc = .ok (res, h') ∧ h.Adds h' ∧
      ((res = none ∧ h' = h) ∨
        ∃ a, res = some a ∧ h.nodes a = none ∧ h' = h.addNode rb proc ptr cookie a) := by
  obtain ⟨res, hsearch, hres⟩ := searchTree_spec (hs.nodeTrees proc) ptrOf_eq ptr
  unfold binderNewNode
  rw [hsearch, ok_bind]
  cases res with
  | some a => exact ⟨none, h, rfl, Heap.Adds.refl hs, .inl ⟨rfl, rfl⟩⟩
  | none =>
    cases kzalloc with
    | none => exact ⟨none, h, rfl, Heap.Adds.refl hs, .inl ⟨rfl, rfl⟩⟩
    | some new =>
      obtain ⟨-, -, hnew, -⟩ := hfresh new rfl
      have hkey : h.nodeKeys new = none := by rw [Heap.nodeKeys, hnew]; rfl
      have hptr : ∀ b n, h.nodeKeys b = some n → n.proc = some proc → n.ptr ≠ ptr := by
        intro b n hb hproc hptr
        have hsome := (hres b).mpr ⟨n, hb, hproc, hptr⟩
        cases hsome
      have hlink := linkTree_spec (x := NodeKey.mk (some proc) ptr [])
        (hs.nodeTrees proc) ptrOf_eq hkey hptr
      simp only
      rw [show linkTree h.ptrOf ptr new (h.procs proc).nodes = _ from hlink]
      exact ⟨some new, _, rfl, hs.addNode rb cookie hnew hptr, .inr ⟨new, rfl, hnew, rfl⟩⟩

/-! ### A new reference -/

lemma newDesc_eq (hl : Linked h.nodeKeys h.refKeys h.procs) {rs : List Nat}
    (hlive : ∀ r ∈ rs, ∃ k, h.refKeys r = some k) (d : Nat) :
    newDesc h rs d = .ok (firstGap (rs.map (fieldAt RefKey.desc h.refKeys)) d) := by
  induction rs generalizing d with
  | nil => rfl
  | cons r rs ih =>
    obtain ⟨k, hk⟩ := hlive r mem_cons_self
    obtain ⟨ref, hr, rfl⟩ := refKeys_eq_some hk
    have hdesc : ref.desc ≤ maxRefs := hl.desc_le r _ hk
    have hwadd : wadd ref.desc 1 = ref.desc + 1 := by
      unfold maxRefs at hdesc
      exact wadd_of_lt (by unfold wordSize; omega)
    rw [newDesc, map_cons, firstGap, ref_of_eq hr, ok_bind, fieldAt_of_eq hk, hwadd,
      ih fun q hq => hlive q (mem_cons_of_mem _ hq)]
    split
    · next hgt => rw [if_pos (show d < ref.key.desc from hgt)]; rfl
    · next hle => rw [if_neg (show ¬ d < ref.key.desc from hle)]; rfl

/-- The descriptors from `d` on that no reference of the process has. -/
def Heap.unusedDescs (h : Heap) (proc d : Nat) : Set Nat :=
  {x | d ≤ x ∧ ∀ r ref, h.refs r = some ref → ref.proc = proc → ref.desc ≠ x}

lemma newDesc_spec (hl : Linked h.nodeKeys h.refKeys h.procs) (proc : Nat) {new : Nat}
    (haddr : new % 4 = 0 ∧ new < wordSize) (hnew : h.refs new = none) {d : Nat} (hd : d ≤ 1) :
    ∃ desc, newDesc h (inorder (h.procs proc).refsByDesc) d = .ok desc ∧ desc ≤ maxRefs ∧
      IsLeast (h.unusedDescs proc d) desc := by
  have hindex := (hl.refTrees proc).1
  have hlive : ∀ r ∈ inorder (h.procs proc).refsByDesc, ∃ k, h.refKeys r = some k ∧ k.proc = proc :=
    fun r hr => (hindex.mem_iff r).mp hr
  have hsorted : ((inorder (h.procs proc).refsByDesc).map
      (fieldAt RefKey.desc h.refKeys)).Pairwise (· < ·) := pairwise_map.mpr hindex.sorted
  have hbelow : ∀ x ∈ (inorder (h.procs proc).refsByDesc).map (fieldAt RefKey.desc h.refKeys),
      d ≤ x + 1 := fun x _ => by omega
  refine ⟨_, newDesc_eq hl (fun r hr => ?_) d, ?_, ?_⟩
  · obtain ⟨k, hk, -⟩ := hlive r hr
    exact ⟨k, hk⟩
  · -- the new reference has an address of its own
    have hnodup : (new :: inorder (h.procs proc).refsByDesc).Nodup := by
      refine nodup_cons.mpr ⟨?_, hindex.sorted.imp fun hab heq => ?_⟩
      · intro hmem
        obtain ⟨k, hk, -⟩ := hlive new hmem
        rw [Heap.refKeys, hnew] at hk
        cases hk
      · rw [heq] at hab
        exact lt_irrefl _ hab
    have hlen : (new :: inorder (h.procs proc).refsByDesc).length ≤ maxRefs := by
      refine length_le_of_aligned 4 hnodup ?_
      intro r hr
      rcases mem_cons.mp hr with rfl | hr
      · exact haddr
      · obtain ⟨k, hk, -⟩ := hlive r hr
        exact hl.addr r k hk
    have hgap := firstGap_le hsorted hbelow
    rw [length_map] at hgap
    rw [length_cons] at hlen
    omega
  have hset : h.unusedDescs proc d = {x | d ≤ x ∧
      x ∉ (inorder (h.procs proc).refsByDesc).map (fieldAt RefKey.desc h.refKeys)} := by
    refine Set.ext fun x => and_congr_right fun _ => ?_
    constructor
    · intro hx hmem
      obtain ⟨r, hr, hrx⟩ := mem_map.mp hmem
      obtain ⟨k, hk, hproc⟩ := hlive r hr
      obtain ⟨ref, href, rfl⟩ := refKeys_eq_some hk
      rw [fieldAt_of_eq hk] at hrx
      exact hx r ref href hproc hrx
    intro hx r ref href hproc heq
    have hk := refKeys_of_eq href
    refine hx (mem_map.mpr ⟨r, (hindex.mem_iff r).mpr ⟨_, hk, hproc⟩, ?_⟩)
    rw [fieldAt_of_eq hk]
    exact heq
  rw [hset]
  exact isLeast_firstGap hsorted hbelow

section
variable {proc node desc new : Nat} {n : Node}

def Heap.addRef (h : Heap) (rb : Rebalance Nat) (proc node desc new : Nat) (n : Node) : Heap :=
  { h with
    refs := update h.refs new (some ⟨proc, node, desc, 0, 0⟩)
    nodes := update h.nodes node (some { n with refs := new :: n.refs })
    procs := update h.procs proc { h.procs proc with
      refsByNode := rb.insertColor new (insertLeaf (fieldAt RefKey.node
        (update h.refKeys new (some ⟨proc, node, desc⟩))) new (h.procs proc).refsByNode)
      refsByDesc := rb.insertColor new (insertLeaf (fieldAt RefKey.desc
        (update h.refKeys new (some ⟨proc, node, desc⟩))) new (h.procs proc).refsByDesc) } }

lemma Heap.Consistent.addRef (hc : h.Consistent holds) (hs' : h'.Sound)
    (hnode : h.nodes node = some n) (hnew : h.refs new = none)
    (hrefs : h'.refs = update h.refs new (some ⟨proc, node, desc, 0, 0⟩))
    (hnodes : h'.nodes = update h.nodes node (some { n with refs := new :: n.refs }))
    (hmgr : h'.contextMgrNode = h.contextMgrNode) : h'.Consistent holds := by
  have hnotin : ∀ b m, h.nodes b = some m → new ∉ m.refs := by
    intro b m hb hmem
    obtain ⟨k, hk, -⟩ := (hc.linked.mem_refs b _ (nodeKeys_of_eq hb) new).mp hmem
    rw [Heap.refKeys, hnew] at hk
    cases hk
  refine ⟨hs', hc.counted.writeRef hrefs hnodes ?_ (fun b m _ hb => hnotin b m hb) ?_,
    hc.held.write_same hnode hnodes hmgr fun _ => rfl⟩
  · -- the new reference is not strong
    rw [countP_cons_of_neg (by simp [strongAt]), countP_update_of_not_mem _ (hnotin node n hnode)]
    exact hc.counted.internal node n hnode
  · rintro x ⟨⟩ strong
    cases strong with
    | true => exact ⟨le_refl _, zero_le_intMax⟩
    | false => exact ⟨le_refl _, zero_le_intMax⟩

lemma Heap.Sound.addRef (hs : h.Sound) (rb : Rebalance Nat) (hnode : h.nodes node = some n)
    (haddr : new % 4 = 0 ∧ new < wordSize) (hnew : h.refs new = none) (hle : desc ≤ maxRefs)
    (hother : ∀ q k, h.refKeys q = some k → k.proc = proc → k.desc ≠ desc ∧ k.node ≠ node) :
    h.Adds (h.addRef rb proc node desc new n) := by
  obtain ⟨h', hh'⟩ : ∃ h', h' = h.addRef rb proc node desc new n := ⟨_, rfl⟩
  have hrefs : h'.refs = update h.refs new (some ⟨proc, node, desc, 0, 0⟩) := by rw [hh']; rfl
  have hnodes : h'.nodes = update h.nodes node (some { n with refs := new :: n.refs }) := by
    rw [hh']
    rfl
  have hmgr : h'.contextMgrNode = h.contextMgrNode := by rw [hh']; rfl
  have hkey : h.refKeys new = none := by rw [Heap.refKeys, hnew]; rfl
  have hs' : h'.Sound := by
    unfold Heap.Sound
    rw [nodeKeys_update hnodes, refKeys_update hrefs, hh']
    exact hs.newRef rb (k := ⟨proc, node, desc⟩) hkey (nodeKeys_of_eq hnode) haddr hle hother
  rw [← hh']
  refine ⟨⟨⟨hs', fun l => by rw [hh']; rfl⟩, ?_, ?_, hmgr⟩, ?_,
    fun holds hc => hc.addRef hs' hnode hnew hrefs hnodes hmgr⟩
  · intro q k hk
    rw [refKeys_update hrefs, update_of_ne]
    · exact hk
    · rintro rfl
      rw [hkey] at hk
      cases hk
  · intro b m hb
    rw [hnodes]
    by_cases hbn : b = node
    · subst hbn
      rw [hnode] at hb
      cases hb
      exact ⟨_, update_self _ _ _, rfl, rfl, rfl⟩
    · exact ⟨m, by rw [update_of_ne hbn, hb], rfl, rfl, rfl⟩
  funext strong q
  rw [Heap.countOf, hrefs, Heap.countOf]
  by_cases hqn : q = new
  · subst hqn
    rw [update_self, hnew]
    cases strong <;> rfl
  · rw [update_of_ne hqn]

lemma getRefForNode_spec (rb : Rebalance Nat) (hs : h.Sound) (proc : Nat)
    (hnode : h.nodes node = some n) (hfresh : ∀ a ∈ kzalloc, h.Fresh a) :
    ∃ res h', binderGetRefForNode rb h proc node kzalloc = .ok (res, h') ∧ h.Adds h' ∧
      (∀ r ∈ res, ∃ k, h'.refKeys r = some k ∧ k.proc = proc ∧ k.node = node) ∧
      (∀ r ref, h.refs r = some ref → ref.proc = proc → ref.node = node → res = some r ∧ h' = h) ∧
      ((∀ r ref, h.refs r = some ref → ref.proc = proc → ref.node ≠ node) → res = kzalloc ∧
        ∀ new ∈ kzalloc, ∃ desc,
          IsLeast (h.unusedDescs proc (if h.contextMgrNode = some node then 0 else 1)) desc ∧
            h'.refs = update h.refs new (some ⟨proc, node, desc, 0, 0⟩)) := by
  obtain ⟨res, hsearch, hres⟩ := searchTree_spec (hs.refTrees proc).2 nodeOf_eq node
  unfold binderGetRefForNode
  rw [hsearch, ok_bind]
  cases res with
  | some r =>
    obtain ⟨k, hk, hproc, hkn⟩ := (hres r).mp rfl
    obtain ⟨ref, href, rfl⟩ := refKeys_eq_some hk
    refine ⟨some r, h, rfl, Heap.Adds.refl hs, ?_, ?_,
      fun hnone => absurd hkn (hnone r ref href hproc)⟩
    · rintro q ⟨⟩
      exact ⟨ref.key, hk, hproc, hkn⟩
    · intro q ref' hq hproc' hnode'
      exact ⟨(hres q).mpr ⟨_, refKeys_of_eq hq, hproc', hnode'⟩, rfl⟩
  | none =>
    have hno : ∀ q ref, h.refs q = some ref → ref.proc = proc → ref.node ≠ node := by
      intro q ref hq hproc hkn
      have hsome := (hres q).mpr ⟨_, refKeys_of_eq hq, hproc, hkn⟩
      cases hsome
    cases kzalloc with
    | none =>
      exact ⟨none, h, rfl, Heap.Adds.refl hs, by simp,
        fun q ref hq hproc hkn => absurd hkn (hno q ref hq hproc), fun _ => ⟨rfl, by simp⟩⟩
    | some new =>
      obtain ⟨halign, hlt, -, hnew⟩ := hfresh new rfl
      have hkey : h.refKeys new = none := by rw [Heap.refKeys, hnew]; rfl
      have hfirst : (if h.contextMgrNode = some node then 0 else 1) ≤ 1 := by split <;> omega
      obtain ⟨desc, hdesc, hle, hleast⟩ := newDesc_spec hs proc ⟨halign, hlt⟩ hnew hfirst
      have hother : ∀ q k, h.refKeys q = some k → k.proc = proc → k.desc ≠ desc ∧
          k.node ≠ node := by
        intro q k hk hproc
        obtain ⟨ref, hq, rfl⟩ := refKeys_eq_some hk
        exact ⟨hleast.1.2 q ref hq hproc, hno q ref hq hproc⟩
      have hbyNode := linkTree_spec (x := RefKey.mk proc node desc) (hs.refTrees proc).2
        nodeOf_eq hkey fun q k hk hproc => (hother q k hk hproc).2
      have hbyDesc := linkTree_spec (x := RefKey.mk proc node desc) (hs.refTrees proc).1
        descOf_eq hkey fun q k hk hproc => (hother q k hk hproc).1
      simp only
      rw [show linkTree h.nodeOf node new (h.procs proc).refsByNode = _ from hbyNode, ok_bind,
        hdesc,
        ok_bind, show linkTree h.descOf desc new (h.procs proc).refsByDesc = _ from hbyDesc,
          node_of_eq hnode]
      refine ⟨some new, _, rfl, hs.addRef rb hnode ⟨halign, hlt⟩ hnew hle hother, ?_,
        fun q ref hq hproc hkn => absurd hkn (hno q ref hq hproc), fun _ => ⟨rfl, ?_⟩⟩
      · rintro q ⟨⟩
        refine ⟨⟨proc, node, desc⟩, ?_, rfl, rfl⟩
        show (update h.refs new _ new).map Ref.key = _
        rw [update_self]
        rfl
      · rintro q ⟨⟩
        exact ⟨desc, hleast, rfl⟩

end

end

end Wm8850.Binder
