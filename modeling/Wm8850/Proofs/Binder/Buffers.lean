import Wm8850.Lib.Blocks
import Wm8850.Proofs.Binder.Pages
import Mathlib.Data.List.Chain

/-! # The functions keep the buffers in order

`Layout`: the headers cut the area into buffers. `PagesOk`: which pages are populated. `AllocatedOk`
and `FreeOk`: what is in the trees. `Proc.Linked` is the invariant of all of them, `Proc.Accounts`
that of the sizes. Inside a call one buffer is free and not yet in the tree (`Proc.Pending`).
Freeing merges on both sides, and allocating splits. -/

namespace Wm8850.Binder

open Lib List

def Proc.limit (p : Proc) : Nat := p.buffer + p.bufferSize

/-- The size of the data and the offsets, each rounded up. -/
def partsSize (dataSize offsetsSize : Nat) : Nat :=
  (dataSize + 3) / 4 * 4 + (offsetsSize + 3) / 4 * 4

def Buffer.parts (b : Buffer) : Nat := partsSize b.dataSize b.offsetsSize

def sizeIn (lim : Nat) (bs : List Buffer) (a : Nat) : Nat :=
  wsub (endOf Buffer.addr lim a bs) (a + bufferHeader)

def UsedByte (lim : Nat) (bs : List Buffer) (x : Nat) : Prop :=
  Used Buffer.addr bufferHeader (fun b => !b.free) lim bs x

structure Layout (base lim : Nat) (bs : List Buffer) : Prop where
  base_mod : base % pageSize = 0
  lim_mod : lim % pageSize = 0
  lim_lt : lim < wordSize
  start : startOf Buffer.addr lim bs = base
  tiled : Tiled Buffer.addr bufferHeader lim bs

/-- A page is populated if it has a byte in use. -/
def PagesOk (base lim : Nat) (bs : List Buffer) (pages : Nat → Bool) : Prop :=
  ∀ i, pages i = true ↔ OnPage base (UsedByte lim bs) i

structure AllocatedOk (bs : List Buffer) (t : BinaryTree Nat) : Prop where
  perm : (inorder t).Perm ((bs.filter fun b => !b.free).map Buffer.addr)
  ordered : Ordered id t

structure FreeOk (lim : Nat) (all bs : List Buffer) (t : BinaryTree Nat) : Prop where
  perm : (inorder t).Perm ((bs.filter fun b => b.free).map Buffer.addr)
  ordered : Ordered (sizeIn lim all) t

/-- An allocated buffer has room for its parts, and not for another buffer behind them. -/
def RoomOk (lim : Nat) (bs : List Buffer) : Prop :=
  ∀ b ∈ bs, b.free = false →
    b.parts ≤ sizeIn lim bs b.addr ∧ sizeIn lim bs b.addr ≤ b.parts + bufferHeader + 4

def Buffer.asyncSpace (b : Buffer) : Nat :=
  if b.free = false ∧ b.asyncTransaction = true then b.parts + bufferHeader else 0

/-- The space of the asynchronous buffers. -/
def asyncSpace (bs : List Buffer) : Nat := (bs.map Buffer.asyncSpace).sum

variable {b : Buffer} {bs cs : List Buffer} {x : Nat}

lemma binderBufferSize_eq (p : Proc) (a : Nat) :
    binderBufferSize p a = sizeIn p.limit p.buffers a := by
  unfold binderBufferSize sizeIn
  rw [endOf_eq_nextOf]
  cases nextOf Buffer.addr a p.buffers <;> rfl

/-! ### Headers -/

section
variable {base lim : Nat} {bs : List Buffer}

section
variable (h : Layout base lim bs)
include h

lemma Layout.nodup : (bs.map Buffer.addr).Nodup := h.tiled.nodup (by decide)

lemma Layout.bounds (hb : b ∈ bs) : base ≤ b.addr ∧ b.addr + bufferHeader ≤ lim := by
  have hmem := h.tiled.mem hb
  rw [h.start] at hmem
  exact hmem

lemma Layout.getBuffer (hb : b ∈ bs) : getBuffer bs b.addr = .ok b := by
  unfold Binder.getBuffer
  rw [findKey_of_mem h.nodup hb]

lemma Layout.sizeIn_add (hb : b ∈ bs) :
    b.addr + bufferHeader + sizeIn lim bs b.addr = endOf Buffer.addr lim b.addr bs := by
  obtain ⟨hle, hlim⟩ := h.tiled.endOf_bounds hb
  unfold sizeIn
  rw [wsub_of_le hle (hlim.trans_lt h.lim_lt)]
  omega

end

end

section
variable {base lim : Nat} {pre post : List Buffer} {b : Buffer}

section
variable (h : Layout base lim (pre ++ b :: post))
include h

lemma Layout.split_ne : (∀ x ∈ pre, x.addr ≠ b.addr) ∧ ∀ x ∈ post, x.addr ≠ b.addr := by
  have hnd := h.nodup
  rw [map_append, nodup_append] at hnd
  obtain ⟨-, hcons, hdisj⟩ := hnd
  refine ⟨fun x hx => ?_, fun x hx heq => ?_⟩
  · exact hdisj _ (mem_map_of_mem hx) _ mem_cons_self
  · exact (nodup_cons.mp hcons).1 (heq ▸ mem_map_of_mem hx)

lemma Layout.endOf_split : endOf Buffer.addr lim b.addr (pre ++ b :: post) = startOf Buffer.addr lim
    post := by
  rw [endOf_append_right h.split_ne.1, endOf, if_pos rfl]

lemma Layout.sizeIn_split :
    b.addr + bufferHeader + sizeIn lim (pre ++ b :: post) b.addr = startOf Buffer.addr lim
      post := by
  rw [h.sizeIn_add (by simp), h.endOf_split]

end

lemma sizeIn_congr (mid mid' : List Buffer) (hstart : startOf Buffer.addr lim (mid ++ post)
      = startOf Buffer.addr lim (mid' ++ post))
    (h : Layout base lim (pre ++ (mid ++ post))) (h' : Layout base lim (pre ++ (mid' ++ post)))
    {a : Nat} (ha : a ∈ (pre ++ post).map Buffer.addr) :
    sizeIn lim (pre ++ (mid ++ post)) a = sizeIn lim (pre ++ (mid' ++ post)) a := by
  unfold sizeIn
  obtain ⟨x, hx, rfl⟩ := mem_map.mp ha
  rcases mem_append.mp hx with hx | hx
  · rw [endOf_append_left ⟨x, hx, rfl⟩, endOf_append_left ⟨x, hx, rfl⟩, hstart]
  -- a buffer behind the change is not in front of it
  have hright : ∀ {ms : List Buffer}, Layout base lim (pre ++ (ms ++ post)) →
      endOf Buffer.addr lim x.addr (pre ++ (ms ++ post)) = endOf Buffer.addr lim x.addr post := by
    intro ms hms
    have hnd := hms.nodup
    rw [← append_assoc, map_append, nodup_append] at hnd
    rw [← append_assoc]
    refine endOf_append_right ?_ post
    intro y hy
    exact hnd.2.2 _ (mem_map_of_mem hy) _ (mem_map_of_mem hx)
  rw [hright h, hright h']

lemma Layout.congr (h : Layout base lim bs)
    (heq : cs.map Buffer.addr = bs.map Buffer.addr) : Layout base lim cs where
  base_mod := h.base_mod
  lim_mod := h.lim_mod
  lim_lt := h.lim_lt
  start := by rw [startOf_eq_map, heq, ← startOf_eq_map, h.start]
  tiled := by rw [tiled_iff_map, heq, ← tiled_iff_map]; exact h.tiled

lemma sizeIn_congr_map (heq : cs.map Buffer.addr = bs.map Buffer.addr)
    (a : Nat) : sizeIn lim cs a = sizeIn lim bs a := by
  unfold sizeIn
  rw [endOf_eq_map, heq, ← endOf_eq_map]

/-! ### Bytes in use -/

lemma usedByte_iff : UsedByte lim (pre ++ b :: post) x ↔
      UsedByte b.addr pre x ∨ (b.addr ≤ x ∧ x < b.addr + bufferHeader) ∨
        (b.free = false ∧ b.addr + bufferHeader ≤ x ∧ x < startOf Buffer.addr lim post) ∨
        UsedByte lim post x := by
  unfold UsedByte
  rw [used_append, Used]
  simp

lemma usedByte_cons (hb : b.free = true) : UsedByte lim (b :: post) x ↔
      (b.addr ≤ x ∧ x < b.addr + bufferHeader) ∨ UsedByte lim post x := by
  simp [UsedByte, Used, hb]

lemma Layout.usedByte_bounds (h : Layout base lim (pre ++ b :: post)) (hfree : b.free = true)
    (hx : UsedByte lim (pre ++ b :: post) x) : base ≤ x ∧ x < lim ∧
      (x < b.addr + bufferHeader ∨ startOf Buffer.addr lim post ≤ x) := by
  obtain ⟨hbase, hlim⟩ := h.tiled.used_bounds hx
  rw [h.start] at hbase
  refine ⟨hbase, hlim, ?_⟩
  obtain ⟨hpre, -, hpost⟩ := tiled_append.mp h.tiled
  rcases usedByte_iff.mp hx with hx | hx | hx | hx
  · have := (hpre.used_bounds hx).2
    rw [startOf_cons] at this
    omega
  · exact .inl hx.2
  · rw [hfree] at hx
    cases hx.1
  · exact .inr (hpost.used_bounds hx).1

lemma usedByte_front : UsedByte lim (pre ++ b :: post) (b.addr + bufferHeader - 1) :=
  usedByte_iff.mpr (.inr (.inl (by unfold bufferHeader; omega)))

lemma usedByte_back (h : startOf Buffer.addr lim post < lim) :
    UsedByte lim (pre ++ b :: post) (startOf Buffer.addr lim post) := by
  cases post with
  | nil => exact absurd h (lt_irrefl _)
  | cons c post =>
    refine usedByte_iff.mpr (.inr (.inr (.inr (.inl ⟨le_refl _, ?_⟩))))
    exact Nat.lt_add_of_pos_right (by decide)

lemma usedByte_allocated {c : Buffer} (haddr : c.addr = b.addr) (hb : b.free = true)
    (hc : c.free = false) : UsedByte lim (pre ++ c :: post) x ↔ UsedByte lim (pre ++ b :: post) x ∨
      b.addr + bufferHeader ≤ x ∧ x < startOf Buffer.addr lim post := by
  rw [usedByte_iff, usedByte_iff, haddr, hb]
  tauto

lemma usedByte_deleted {q : Buffer} (hq : q.free = true) (hb : b.free = true) :
    UsedByte lim (pre ++ q :: b :: post) x ↔ UsedByte lim (pre ++ q :: post) x ∨
      b.addr ≤ x ∧ x < b.addr + bufferHeader := by
  rw [usedByte_iff, usedByte_iff, usedByte_cons hb, hq]
  simp only [Bool.true_eq_false, false_and]
  tauto

end

variable {all bs : List Buffer} {t : BinaryTree Nat} {a : Nat}

def NotBothFree (b c : Buffer) : Prop := ¬(b.free = true ∧ c.free = true)

structure Proc.Base (base lim : Nat) (p : Proc) : Prop where
  buffer : p.buffer = base
  limit : p.limit = lim
  layout : Layout base lim p.buffers
  pages : PagesOk base lim p.buffers p.pages
  allocated : AllocatedOk p.buffers p.allocatedBuffers

structure Proc.Linked (base lim : Nat) (p : Proc) : Prop extends p.Base base lim where
  chain : p.buffers.IsChain NotBothFree
  free : FreeOk lim p.buffers p.buffers p.freeBuffers

/-- The buffer `b` is free and not in the tree. Its neighbours may be free. -/
structure Proc.Pending (base lim : Nat) (p : Proc) (pre : List Buffer) (b : Buffer)
    (post : List Buffer) : Prop extends p.Base base lim where
  split : p.buffers = pre ++ b :: post
  isFree : b.free = true
  chainPre : pre.IsChain NotBothFree
  chainPost : post.IsChain NotBothFree
  free : FreeOk lim p.buffers (pre ++ post) p.freeBuffers

structure Proc.Accounts (lim : Nat) (p : Proc) : Prop where
  room : RoomOk lim p.buffers
  async : p.freeAsyncSpace + asyncSpace p.buffers = p.bufferSize / 2

structure Proc.Inv (base lim : Nat) (p : Proc) : Prop extends p.Linked base lim, p.Accounts lim

section
variable {base lim : Nat} {p : Proc} {b : Buffer} {l : List Nat} {f : Buffer → Bool}
  {pre post : List Buffer}

lemma Proc.Base.size_eq (h : p.Base base lim) : binderBufferSize p = sizeIn lim p.buffers := by
  funext a
  rw [binderBufferSize_eq, h.limit]

/-! ### The trees -/

lemma FreeOk.mem (h : FreeOk lim all bs t) (ha : a ∈ inorder t) :
    ∃ b ∈ bs, b.addr = a ∧ b.free = true := by
  obtain ⟨b, hb, rfl⟩ := mem_map.mp (h.perm.mem_iff.mp ha)
  obtain ⟨hb, hfree⟩ := mem_filter.mp hb
  exact ⟨b, hb, rfl, hfree⟩

lemma FreeOk.mem_of_free (h : FreeOk lim all bs t) (hb : b ∈ bs) (hfree : b.free = true) :
    b.addr ∈ inorder t :=
  h.perm.mem_iff.mpr (mem_map_of_mem (mem_filter.mpr ⟨hb, hfree⟩))

lemma AllocatedOk.mem (h : AllocatedOk bs t) (ha : a ∈ inorder t) :
    ∃ b ∈ bs, b.addr = a ∧ b.free = false := by
  obtain ⟨b, hb, rfl⟩ := mem_map.mp (h.perm.mem_iff.mp ha)
  obtain ⟨hb, hfree⟩ := mem_filter.mp hb
  exact ⟨b, hb, rfl, by simpa using hfree⟩

lemma FreeOk.congr {all' : List Buffer} (h : FreeOk lim all bs t)
    (hsize : ∀ b ∈ bs, b.free = true → sizeIn lim all' b.addr = sizeIn lim all b.addr) :
    FreeOk lim all' bs t := by
  refine ⟨h.perm, h.ordered.congr ?_⟩
  intro a ha
  obtain ⟨b, hb, rfl, hfree⟩ := h.mem ha
  exact hsize b hb hfree

lemma perm_erase_filter (h : l.Perm (((pre ++ b :: post).filter f).map Buffer.addr))
    (hb : f b = true) :
    (l.erase b.addr).Perm (((pre ++ post).filter f).map Buffer.addr) := by
  have hcons : l.Perm (b.addr :: ((pre ++ post).filter f).map Buffer.addr) := by
    refine h.trans ?_
    rw [filter_append, filter_cons_of_pos hb, filter_append, map_append, map_append]
    exact perm_middle
  have herase := hcons.erase b.addr
  rw [erase_cons_head] at herase
  exact herase

lemma perm_cons_filter (h : l.Perm (((pre ++ post).filter f).map Buffer.addr)) (hb : f b = true) :
    (b.addr :: l).Perm (((pre ++ b :: post).filter f).map Buffer.addr) := by
  refine (h.cons b.addr).trans ?_
  rw [filter_append, filter_append, filter_cons_of_pos hb, map_append, map_append]
  exact perm_middle.symm

lemma FreeOk.erase (h : FreeOk lim all (pre ++ b :: post) t) (hb : b.free = true)
    (rb : Rebalance Nat) :
    FreeOk lim all (pre ++ post) (rb.erase b.addr t) := by
  refine ⟨?_, h.ordered.erase rb _⟩
  rw [rb.inorder_erase]
  exact perm_erase_filter h.perm hb

lemma AllocatedOk.erase (h : AllocatedOk (pre ++ b :: post) t) (hb : b.free = false)
    (rb : Rebalance Nat) :
    AllocatedOk (pre ++ post) (rb.erase b.addr t) := by
  refine ⟨?_, h.ordered.erase rb _⟩
  rw [rb.inorder_erase]
  exact perm_erase_filter h.perm (by simp [hb])

lemma AllocatedOk.congr {cs : List Buffer} (h : AllocatedOk bs t)
    (heq : (cs.filter fun b => !b.free).map Buffer.addr
      = (bs.filter fun b => !b.free).map Buffer.addr) : AllocatedOk cs t :=
  ⟨by rw [heq]; exact h.perm, h.ordered⟩

section
variable (hlay : Layout base lim p.buffers)
include hlay

lemma linkFree_eq (new : Nat) (h : ∀ a ∈ inorder t, ∃ b ∈ p.buffers, b.addr = a ∧ b.free = true) :
    linkFree p new t = .ok (insertLeaf (binderBufferSize p) new t) := by
  induction t with
  | nil => rfl
  | node a l r ihl ihr =>
    obtain ⟨b, hb, rfl, hfree⟩ := h a (by simp)
    rw [linkFree, insertLeaf, hlay.getBuffer hb, ok_bind, hfree,
      ihl fun x hx => h x (by simp [hx]), ihr fun x hx => h x (by simp [hx])]
    split <;> rfl

lemma linkAllocated_eq {new : Nat}
    (h : ∀ a ∈ inorder t, ∃ b ∈ p.buffers, b.addr = a ∧ b.free = false) (hnew : new ∉ inorder t) :
    linkAllocated p new t = .ok (insertLeaf id new t) := by
  induction t with
  | nil => rfl
  | node a l r ihl ihr =>
    obtain ⟨b, hb, rfl, hfree⟩ := h a (by simp)
    rw [inorder_node, mem_append, mem_cons] at hnew
    rw [linkAllocated, hlay.getBuffer hb, ok_bind, hfree,
      ihl (fun x hx => h x (by simp [hx])) (fun hl => hnew (.inl hl)),
      ihr (fun x hx => h x (by simp [hx])) (fun hr => hnew (.inr (.inr hr)))]
    -- the two are not the same buffer
    show (if new < b.addr then _ else if b.addr < new then _ else _)
      = Except.ok (if new < b.addr then _ else _)
    by_cases hlt : new < b.addr
    · rw [if_pos hlt, if_pos hlt]
      rfl
    · rw [if_neg hlt, if_pos (by omega), if_neg hlt]
      rfl

lemma bestFit_eq (size : Nat)
    (h : ∀ a ∈ inorder t, ∃ b ∈ p.buffers, b.addr = a ∧ b.free = true) (best : Option Nat) :
    bestFit p size t best = .ok (fit (binderBufferSize p) size t best) := by
  induction t generalizing best with
  | nil => rfl
  | node a l r ihl ihr =>
    obtain ⟨b, hb, rfl, hfree⟩ := h a (by simp)
    rw [bestFit, fit, hlay.getBuffer hb, ok_bind, hfree,
      ihl fun x hx => h x (by simp [hx]), ihr fun x hx => h x (by simp [hx])]
    split
    · rfl
    · split <;> rfl

lemma lookupAllocated_eq (kernPtr : Nat)
    (h : ∀ a ∈ inorder t, ∃ b ∈ p.buffers, b.addr = a ∧ b.free = false) (hord : Ordered id t) :
    lookupAllocated p kernPtr t = .ok (if kernPtr ∈ inorder t then some kernPtr else none) := by
  induction t with
  | nil => rfl
  | node a l r ihl ihr =>
    obtain ⟨b, hb, rfl, hfree⟩ := h a (by simp)
    obtain ⟨hl, hr, hla, har⟩ := ordered_node.mp hord
    rw [lookupAllocated, hlay.getBuffer hb, ok_bind, hfree,
      ihl (fun x hx => h x (by simp [hx])) hl, ihr (fun x hx => h x (by simp [hx])) hr]
    show (if kernPtr < b.addr then _ else if b.addr < kernPtr then _ else _) = _
    -- an address on the other side of the node would be out of order
    by_cases hlt : kernPtr < b.addr
    · have hnot : kernPtr ∉ inorder r := fun hmem => absurd (har _ hmem) (Nat.not_le_of_lt hlt)
      rw [if_pos hlt]
      simp [hnot, hlt.ne]
    rw [if_neg hlt]
    by_cases hgt : b.addr < kernPtr
    · have hnot : kernPtr ∉ inorder l := fun hmem => absurd (hla _ hmem) (Nat.not_le_of_lt hgt)
      rw [if_pos hgt]
      simp [hnot, hgt.ne']
    · have heq : kernPtr = b.addr := by omega
      rw [heq]
      simp
      rfl

end

/-! ### Insertion -/

lemma Proc.Pending.insert (h : p.Pending base lim pre b post) (rb : Rebalance Nat)
    (hlast : ∀ c ∈ pre.getLast?, c.free = false) (hhead : ∀ c ∈ post.head?, c.free = false) :
    ∃ t, binderInsertFreeBuffer rb p b.addr = .ok { p with freeBuffers := t } ∧
      Proc.Linked base lim { p with freeBuffers := t } := by
  have hb : b ∈ p.buffers := by
    rw [h.split]
    simp
  have hmem : ∀ a ∈ inorder p.freeBuffers, ∃ c ∈ p.buffers, c.addr = a ∧ c.free = true := by
    intro a ha
    obtain ⟨c, hc, hca, hfree⟩ := h.free.mem ha
    refine ⟨c, ?_, hca, hfree⟩
    rw [h.split]
    exact ((sublist_cons_self b post).append_left pre).mem hc
  refine ⟨rb.insertColor b.addr (insertLeaf (binderBufferSize p) b.addr p.freeBuffers), ?_, ?_⟩
  · rw [binderInsertFreeBuffer, h.layout.getBuffer hb, ok_bind, h.isFree,
      linkFree_eq h.layout b.addr hmem]
    rfl
  refine ⟨⟨h.buffer, h.limit, h.layout, h.pages, h.allocated⟩, ?_, ?_, ?_⟩
  · rw [h.split]
    refine isChain_append.mpr ⟨h.chainPre, isChain_cons.mpr ⟨?_, h.chainPost⟩, ?_⟩
    · rintro c hc ⟨-, hfree⟩
      rw [hhead c hc] at hfree
      cases hfree
    · rintro c hc _ - ⟨hfree, -⟩
      rw [hlast c hc] at hfree
      cases hfree
  · rw [rb.inorder_insertColor, h.split]
    exact (inorder_insertLeaf_perm _ _ _).trans (perm_cons_filter h.free.perm h.isFree)
  · show ((inorder (rb.insertColor _ _)).Pairwise _)
    rw [rb.inorder_insertColor, h.size_eq]
    exact ordered_insertLeaf h.free.ordered b.addr

lemma insertAllocated (hlay : Layout base lim p.buffers)
    (hsplit : p.buffers = pre ++ b :: post) (hb : b.free = false)
    (h : AllocatedOk (pre ++ post) p.allocatedBuffers) (rb : Rebalance Nat) :
    ∃ t, binderInsertAllocatedBuffer rb p b.addr = .ok { p with allocatedBuffers := t } ∧
      AllocatedOk (pre ++ b :: post) t := by
  have hne := Layout.split_ne (hsplit ▸ hlay)
  have hmem : ∀ a ∈ inorder p.allocatedBuffers, ∃ c ∈ p.buffers, c.addr = a ∧ c.free = false := by
    intro a ha
    obtain ⟨c, hc, hca, hfree⟩ := h.mem ha
    refine ⟨c, ?_, hca, hfree⟩
    rw [hsplit]
    exact ((sublist_cons_self b post).append_left pre).mem hc
  have hnew : b.addr ∉ inorder p.allocatedBuffers := by
    intro ha
    obtain ⟨c, hc, hca, -⟩ := h.mem ha
    rcases mem_append.mp hc with hc | hc
    · exact hne.1 c hc hca
    · exact hne.2 c hc hca
  refine ⟨rb.insertColor b.addr (insertLeaf id b.addr p.allocatedBuffers), ?_, ?_, ?_⟩
  · rw [binderInsertAllocatedBuffer, hlay.getBuffer (by rw [hsplit]; simp), ok_bind, hb,
      linkAllocated_eq hlay hmem hnew]
    rfl
  · rw [rb.inorder_insertColor]
    exact (inorder_insertLeaf_perm _ _ _).trans (perm_cons_filter h.perm (by simp [hb]))
  · show ((inorder (rb.insertColor _ _)).Pairwise _)
    rw [rb.inorder_insertColor]
    exact ordered_insertLeaf h.ordered b.addr

end

/-! ### Unlinking -/

section
variable {base lim : Nat} {p : Proc} {pre post : List Buffer} {q b : Buffer}

lemma Layout.delete (h : Layout base lim (pre ++ q :: b :: post)) :
    Layout base lim (pre ++ q :: post) := by
  obtain ⟨hpre, hq, hb, hpost⟩ := tiled_append.mp h.tiled
  refine ⟨h.base_mod, h.lim_mod, h.lim_lt, ?_, tiled_append.mpr ⟨hpre, ?_, hpost⟩⟩
  · rw [← h.start, startOf_append, startOf_append]
    rfl
  · rw [startOf_cons] at hq
    omega

lemma PagesOk.delete {pages : Nat → Bool} (hlay : Layout base lim (pre ++ q :: b :: post))
    (h : PagesOk base lim (pre ++ q :: b :: post) pages) (hq : q.free = true) (hb : b.free = true) :
    (∀ i, HeaderPage base q.addr b.addr (post.head?.map fun c => bufferStartPage c.addr) i →
      pages i = true) ∧ ∀ pages' : Nat → Bool, (∀ i, pages' i = true ↔ pages i = true ∧
      ¬HeaderPage base q.addr b.addr (post.head?.map fun c => bufferStartPage c.addr) i) →
      PagesOk base lim (pre ++ q :: post) pages' := by
  obtain ⟨-, hqb, hbpost, -⟩ := tiled_append.mp hlay.tiled
  rw [startOf_cons] at hqb
  have hbounds := hlay.bounds (b := q) (by simp)
  have hlay' := hlay.delete
  have hnext : (post.head?.map fun c => bufferStartPage c.addr) = none ∧
      startOf Buffer.addr lim post = lim ∨
      (post.head?.map fun c => bufferStartPage c.addr) =
        some (bufferStartPage (startOf Buffer.addr lim post)) ∧
        UsedByte lim (pre ++ q :: post) (startOf Buffer.addr lim post) := by
    cases post with
    | nil => exact .inl ⟨rfl, rfl⟩
    | cons c post =>
      refine .inr ⟨rfl, usedByte_back ?_⟩
      have := (hlay.bounds (b := c) (by simp)).2
      exact lt_of_lt_of_le (Nat.lt_add_of_pos_right (by decide)) this
  have hkey := fun i => header_pages hlay.base_mod hbounds.1 hqb hbpost hnext
    (fun x hx => hlay'.usedByte_bounds hq hx) usedByte_front i
  have hall : ∀ i, pages i = true ↔ OnPage base (UsedByte lim (pre ++ q :: post)) i ∨
      HeaderPage base q.addr b.addr (post.head?.map fun c => bufferStartPage c.addr) i := by
    intro i
    rw [h i, ← (hkey i).1]
    exact exists_congr fun x => and_congr_left fun _ => usedByte_deleted hq hb
  refine ⟨fun i hi => (hall i).mpr (.inr hi), ?_⟩
  intro pages' hpages i
  rw [hpages i, hall i]
  have := (hkey i).2
  tauto

lemma Proc.Base.delete (h : p.Base base lim) (hsplit : p.buffers = pre ++ q :: b :: post)
    (hq : q.free = true) (hb : b.free = true) (env : PageEnv) :
    ∃ pages, binderDeleteFreeBuffer env p b.addr =
      .ok { p with buffers := pre ++ q :: post, pages := pages } ∧
      Proc.Base base lim { p with buffers := pre ++ q :: post, pages := pages } := by
  have hlay := hsplit ▸ h.layout
  have hlay' : Layout base lim ((pre ++ [q]) ++ b :: post) := by
    rw [append_assoc]
    exact hlay
  have hne := hlay'.split_ne
  have hprev : prevOf Buffer.addr b.addr p.buffers = some q := by
    rw [hsplit]
    exact prevOf_split rfl (fun x hx => hne.1 x (by simp [hx])) (hne.1 q (by simp))
  have hnext : nextOf Buffer.addr b.addr p.buffers = post.head? := by
    rw [hsplit, append_cons]
    exact nextOf_split rfl hne.1
  have herase : eraseKey Buffer.addr b.addr p.buffers = pre ++ q :: post := by
    rw [hsplit, append_cons, eraseKey_split rfl hne.1, ← append_cons]
  obtain ⟨hpopulated, hkept⟩ := PagesOk.delete hlay (hsplit ▸ h.pages) hq hb
  rw [← h.buffer] at hpopulated hkept
  obtain ⟨pages, hrun, hpages⟩ := freeHeaderPages_spec env (by rw [h.buffer]; exact hlay.base_mod)
    (by rw [h.buffer]; exact (hlay.bounds (by simp)).1) hpopulated
  refine ⟨pages, ?_, h.buffer, h.limit, hlay.delete, ?_, h.allocated.congr ?_⟩
  · unfold binderDeleteFreeBuffer
    rw [hprev, hnext, herase]
    show (bugOn (!q.free) >>= _) = _
    rw [hq]
    rw [hrun]
    rfl
  · rw [← h.buffer]
    exact hkept pages hpages
  · rw [hsplit]
    simp [hq, hb]

lemma Layout.sizeIn_delete (h : Layout base lim (pre ++ q :: b :: post))
    (ha : a ∈ (pre ++ post).map Buffer.addr) :
    sizeIn lim (pre ++ q :: post) a = sizeIn lim (pre ++ q :: b :: post) a :=
  sizeIn_congr [q] [q, b] rfl h.delete h ha

lemma RoomOk.delete (hlay : Layout base lim (pre ++ q :: b :: post))
    (h : RoomOk lim (pre ++ q :: b :: post)) (hq : q.free = true) :
    RoomOk lim (pre ++ q :: post) := by
  intro c hc hfree
  have hmem : c ∈ pre ++ post := by
    rcases mem_append.mp hc with hc | hc
    · exact mem_append_left _ hc
    · rcases mem_cons.mp hc with rfl | hc
      · rw [hq] at hfree
        cases hfree
      · exact mem_append_right _ hc
  rw [hlay.sizeIn_delete (mem_map_of_mem hmem)]
  refine h c ?_ hfree
  rcases mem_append.mp hmem with hc | hc
  · exact mem_append_left _ hc
  · exact mem_append_right _ (mem_cons_of_mem _ (mem_cons_of_mem _ hc))

lemma asyncSpace_delete (hb : b.free = true) :
    asyncSpace (pre ++ q :: b :: post) = asyncSpace (pre ++ q :: post) := by
  have hzero : b.asyncSpace = 0 := by simp [Buffer.asyncSpace, hb]
  simp [asyncSpace, hzero]

lemma Proc.Accounts.delete (hlay : Layout base lim p.buffers) (h : p.Accounts lim)
    (hsplit : p.buffers = pre ++ q :: b :: post) (hq : q.free = true) (hb : b.free = true)
    (pages : Nat → Bool) :
    Proc.Accounts lim { p with buffers := pre ++ q :: post, pages := pages } := by
  obtain ⟨hroom, hasync⟩ := h
  rw [hsplit] at hlay hroom hasync
  exact ⟨hroom.delete hlay hq, by rw [← asyncSpace_delete hb]; exact hasync⟩

/-! ### Merging -/

section
variable (h : p.Pending base lim pre b post) (hacc : p.Accounts lim) (rb : Rebalance Nat)
  (env : PageEnv)
include h hacc

lemma mergeNext_spec : ∃ r post', mergeNext rb env p b.addr = .ok r ∧
    r.Pending base lim pre b post' ∧
      (∀ c ∈ post'.head?, c.free = false) ∧ r.Accounts lim := by
  have hlay := h.split ▸ h.layout
  have hnext : nextOf Buffer.addr b.addr p.buffers = post.head? := by
    rw [h.split]
    exact nextOf_split rfl hlay.split_ne.1
  unfold mergeNext
  rw [hnext]
  cases post with
  | nil => exact ⟨p, [], rfl, h, by simp, hacc⟩
  | cons c post =>
    cases hc : c.free with
    | false =>
      refine ⟨p, c :: post, ?_, h, ?_, hacc⟩
      · simp [hc]
      · rintro d ⟨⟩
        exact hc
    | true =>
      have hbase : Proc.Base base lim { p with freeBuffers := rb.erase c.addr p.freeBuffers } :=
        ⟨h.buffer, h.limit, h.layout, h.pages, h.allocated⟩
      obtain ⟨pages, hrun, hbase'⟩ := hbase.delete h.split h.isFree hc env
      obtain ⟨hhead, hchain⟩ := isChain_cons.mp h.chainPost
      refine ⟨_, post, ?_, ⟨hbase', rfl, h.isFree, h.chainPre, hchain, ?_⟩, ?_, ?_⟩
      · simp only [head?_cons, hc]
        exact hrun
      · refine ((h.free.erase hc rb).congr ?_)
        intro d hd _
        rw [h.split]
        exact hlay.sizeIn_delete (mem_map_of_mem hd)
      · intro d hd
        have hnot := hhead d hd
        unfold NotBothFree at hnot
        simpa [hc] using hnot
      · exact Proc.Accounts.delete (p := { p with freeBuffers := rb.erase c.addr p.freeBuffers })
          h.layout ⟨hacc.room, hacc.async⟩ h.split h.isFree hc pages

lemma mergePrev_spec :
    ∃ r pre' c, mergePrev rb env p b.addr = .ok (c.addr, r) ∧ r.Pending base lim pre' c post ∧
      (∀ d ∈ pre'.getLast?, d.free = false) ∧ r.Accounts lim := by
  have hlay := h.split ▸ h.layout
  unfold mergePrev
  rcases eq_nil_or_concat' pre with rfl | ⟨pre', c, rfl⟩
  · have hprev : prevOf Buffer.addr b.addr p.buffers = none := by
      rw [h.split]
      exact prevOf_first b hlay.split_ne.2
    rw [hprev]
    exact ⟨p, [], b, rfl, h, by simp, hacc⟩
  have hsplit : p.buffers = pre' ++ c :: b :: post := by
    rw [h.split, append_assoc]
    rfl
  have hprev : prevOf Buffer.addr b.addr p.buffers = some c := by
    rw [hsplit]
    exact prevOf_split rfl (fun x hx => hlay.split_ne.1 x (by simp [hx]))
      (hlay.split_ne.1 c (by simp))
  rw [hprev]
  cases hc : c.free with
  | false =>
    refine ⟨p, pre' ++ [c], b, ?_, h, ?_, hacc⟩
    · simp [hc]
    · intro d hd
      rw [getLast?_concat] at hd
      cases hd
      exact hc
  | true =>
    obtain ⟨pages, hrun, hbase⟩ := h.toBase.delete hsplit hc h.isFree env
    obtain ⟨hchain, -, hlast⟩ := isChain_append.mp h.chainPre
    refine ⟨{ p with buffers := pre' ++ c :: post, pages := pages,
                     freeBuffers := rb.erase c.addr p.freeBuffers }, pre', c, ?_,
      ⟨⟨hbase.buffer, hbase.limit, hbase.layout, hbase.pages, hbase.allocated⟩, rfl, hc, hchain,
        h.chainPost, ?_⟩, ?_, ?_⟩
    · simp only [hc]
      rw [hrun]
      rfl
    · have hfree := h.free
      rw [append_assoc] at hfree
      refine (hfree.erase hc rb).congr ?_
      intro d hd _
      rw [hsplit]
      exact Layout.sizeIn_delete (hsplit ▸ h.layout) (mem_map_of_mem hd)
    · intro d hd
      have hnot := hlast d hd c (by simp)
      unfold NotBothFree at hnot
      simpa [hc] using hnot
    · have := hacc.delete h.layout hsplit hc h.isFree pages
      exact ⟨this.room, this.async⟩

end

end

end Wm8850.Binder
