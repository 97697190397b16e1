import Wm8850.Proofs.Binder.Buffers

/-! # `binder_alloc_buf` and `binder_free_buf`

Each call on a process with `Proc.Inv` returns and keeps it (`binderAllocBuf_spec`,
`binderFreeBuf_spec`). An allocation takes a smallest free buffer of sufficient size, or fails and
changes nothing. -/

namespace Wm8850.Binder

open Lib List

variable {d o size : Nat} {pages : Nat → Bool} {g space : Nat} {t : BinaryTree Nat} {n : Buffer}
    {isAsync stop : Bool}

/-! ### Sizes -/

lemma wadd_alignPtr {n : Nat} (h : partsSize d o ≤ n) (hn : n < wordSize) :
    wadd (alignPtr d) (alignPtr o) = partsSize d o := by
  unfold partsSize alignPtr wadd wordSize at *
  omega

lemma wadd_alignPtr_of_not_lt (h : ¬(wadd (alignPtr d) (alignPtr o) < d ∨
    wadd (alignPtr d) (alignPtr o) < o)) :
    wadd (alignPtr d) (alignPtr o) = partsSize d o ∧ partsSize d o < wordSize := by
  unfold partsSize alignPtr wadd wordSize at *
  omega

section
variable {base lim : Nat} {p : Proc} {pre post : List Buffer} {b c : Buffer}

/-- The pages of the contents of a free buffer up to `g`, without those that its neighbours use. -/
def ContentsPage (base lim : Nat) (b : Buffer) (post : List Buffer) (g i : Nat) : Prop :=
  InRange base (pageAlign (b.addr + bufferHeader))
    (min (pageAlign g) (pageMask (startOf Buffer.addr lim post))) i

/-! ### Writing a header -/

lemma map_addr_replace (hsplit : p.buffers = pre ++ b :: post) (haddr : c.addr = b.addr) :
    (pre ++ c :: post).map Buffer.addr = p.buffers.map Buffer.addr := by
  rw [hsplit, map_append, map_append, map_cons, map_cons, haddr]

lemma Proc.Linked.replace (h : p.Linked base lim) (hsplit : p.buffers = pre ++ b :: post)
    (haddr : c.addr = b.addr) (hfree : c.free = b.free) :
    Proc.Linked base lim { p with buffers := pre ++ c :: post } := by
  have hmap := map_addr_replace hsplit haddr
  have hfilter : ∀ f : Bool → Bool, ((pre ++ c :: post).filter fun d => f d.free).map Buffer.addr
      = (p.buffers.filter fun d => f d.free).map Buffer.addr := by
    intro f
    rw [hsplit, filter_append, filter_append, filter_cons, filter_cons, hfree]
    split <;> simp [haddr]
  refine ⟨⟨h.buffer, h.limit, h.layout.congr hmap, ?_, h.allocated.congr (hfilter not)⟩, ?_, ?_⟩
  · intro i
    rw [h.pages i, hsplit]
    refine exists_congr fun x => and_congr_left fun _ => ?_
    rw [usedByte_iff, usedByte_iff, haddr, hfree]
  · have hchain := h.chain
    rw [hsplit] at hchain
    obtain ⟨hpre, hpost, hbetween⟩ := isChain_append.mp hchain
    obtain ⟨hhead, htail⟩ := isChain_cons.mp hpost
    refine isChain_append.mpr ⟨hpre, isChain_cons.mpr ⟨?_, htail⟩, ?_⟩
    · intro d hd
      have := hhead d hd
      unfold NotBothFree at *
      rw [hfree]
      exact this
    rintro d hd _ ⟨⟩
    have := hbetween d hd b rfl
    unfold NotBothFree at *
    rw [hfree]
    exact this
  · refine ⟨?_, h.free.ordered.congr fun a _ => sizeIn_congr_map hmap a⟩
    show (inorder p.freeBuffers).Perm
      (((pre ++ c :: post).filter fun d => id d.free).map Buffer.addr)
    rw [hfilter id]
    exact h.free.perm

/-! ### Freeing -/

section
variable (h : Layout base lim (pre ++ b :: post))
include h

lemma Layout.startOf_le : startOf Buffer.addr lim post ≤ lim :=
  (tiled_append.mp h.tiled).2.2.startOf_le

lemma Layout.wadd_sizeIn :
    wadd (b.addr + bufferHeader) (sizeIn lim (pre ++ b :: post) b.addr) = startOf Buffer.addr lim
      post := by
  rw [wadd_of_lt (by rw [h.sizeIn_split]; exact h.startOf_le.trans_lt h.lim_lt), h.sizeIn_split]

lemma Layout.contents_pages (hb : b.free = true)
    {m : Nat} (hg : b.addr + bufferHeader ≤ g) (hgm : g ≤ m) (hm : m ≤ startOf Buffer.addr lim post)
    (hgap : m = g ∨ startOf Buffer.addr lim post ≤ g + 44) (i : Nat) :
    (OnPage base (fun x => UsedByte lim (pre ++ b :: post) x ∨
        b.addr + bufferHeader ≤ x ∧ x < m) i ↔ OnPage base (UsedByte lim (pre ++ b :: post)) i ∨
        ContentsPage base lim b post g i) ∧ (ContentsPage base lim b post g i →
      ¬OnPage base (UsedByte lim (pre ++ b :: post)) i) := by
  refine Binder.contents_pages h.base_mod h.lim_mod h.lim_lt hg hgm hm h.startOf_le hgap ?_
    usedByte_front usedByte_back i
  intro x hx
  obtain ⟨hbase, -, hside⟩ := h.usedByte_bounds hb hx
  exact ⟨hbase, hside⟩

end

lemma Proc.Inv.release (h : p.Inv base lim) (hsplit : p.buffers = pre ++ b :: post)
    (hb : b.free = false) (haddr : c.addr = b.addr) (hc : c.free = true) (rb : Rebalance Nat)
    (env : PageEnv) : ∃ done q, binderUpdatePageRange env p false
      (pageAlign (b.addr + bufferHeader))
        (pageMask (startOf Buffer.addr lim post)) false = .ok done ∧
      q = { p with freeAsyncSpace := p.freeAsyncSpace + b.asyncSpace, pages := done.2
                   allocatedBuffers := rb.erase b.addr p.allocatedBuffers
                   buffers := pre ++ c :: post } ∧ q.Pending base lim pre c post ∧
                     q.Accounts lim := by
  have hmap := map_addr_replace hsplit haddr
  have hlay : Layout base lim (pre ++ c :: post) := h.layout.congr hmap
  -- the pages: those of the range, and those of the other bytes
  have hkey := hlay.contents_pages hc (tiled_append.mp hlay.tiled).2.1 (le_refl _)
    (le_refl _) (.inl rfl)
  unfold ContentsPage at hkey
  rw [min_eq_right (pageMask_le_pageAlign hlay.startOf_le hlay.lim_mod hlay.lim_lt), haddr] at hkey
  have hall : ∀ i, p.pages i = true ↔ OnPage base (UsedByte lim (pre ++ c :: post)) i ∨
      InRange base (pageAlign (b.addr + bufferHeader))
        (pageMask (startOf Buffer.addr lim post)) i := by
    intro i
    rw [h.pages i, hsplit, ← (hkey i).1]
    refine exists_congr fun x => and_congr_left fun _ => ?_
    rw [← haddr]
    exact usedByte_allocated haddr.symm hc hb
  have hbuf := h.buffer
  have hbounds := hlay.bounds (b := c) (by simp)
  have hlow : base ≤ pageAlign (b.addr + bufferHeader) := by
    have := le_pageAlign hbounds.2 hlay.lim_mod hlay.lim_lt
    rw [haddr] at this hbounds
    omega
  obtain ⟨done, hrun, hpages⟩ := binderUpdatePageRange_free env _ _ (hbuf ▸ hlay.base_mod)
    (pageAlign_mod _) (hbuf ▸ hlow) (pageMask_mod _) false
    (fun i hi => (hall i).mpr (.inr (hbuf ▸ hi)))
  obtain ⟨hchainPre, hchainPost, -⟩ := isChain_append.mp (hsplit ▸ h.chain)
  refine ⟨done, _, hrun, rfl, ⟨⟨h.buffer, h.limit, hlay, ?_, ?_⟩, rfl, hc, hchainPre,
    (isChain_cons.mp hchainPost).2, ?_⟩, ?_, ?_⟩
  · intro i
    rw [hpages i, hall i, hbuf]
    have := (hkey i).2
    tauto
  · refine ((hsplit ▸ h.allocated).erase hb rb).congr ?_
    simp [hc]
  · refine ⟨?_, h.free.ordered.congr fun a _ => sizeIn_congr_map hmap a⟩
    have hperm := h.free.perm
    rw [hsplit] at hperm
    simpa [hb] using hperm
  · intro d hd hfree
    have hmem : d ∈ p.buffers := by
      rw [hsplit]
      rcases mem_append.mp hd with hd | hd
      · exact mem_append_left _ hd
      rcases mem_cons.mp hd with rfl | hd
      · rw [hc] at hfree
        cases hfree
      · exact mem_append_right _ (mem_cons_of_mem _ hd)
    rw [sizeIn_congr_map hmap]
    exact h.room d hmem hfree
  have hasync := h.async
  have hzero : c.asyncSpace = 0 := by simp [Buffer.asyncSpace, hc]
  rw [hsplit] at hasync
  simp only [asyncSpace, map_append, map_cons, sum_append, sum_cons] at hasync ⊢
  omega

lemma binderFreeBuf_spec (h : p.Inv base lim) (hb : b ∈ p.buffers) (hlive : b.free = false)
    (htr : b.transaction = none) (rb : Rebalance Nat) (env : PageEnv) :
    ∃ q, binderFreeBuf rb env p b.addr = .ok q ∧ q.Inv base lim := by
  obtain ⟨pre, post, hsplit⟩ := append_of_mem hb
  have hlay := hsplit ▸ h.layout
  obtain ⟨hroom, -⟩ := h.room b hb hlive
  have hlimit := h.limit
  have hbuf := h.buffer
  have hbounds := h.layout.bounds hb
  have hadd := h.layout.sizeIn_add hb
  have hend := (h.layout.tiled.endOf_bounds hb).2
  have hword := h.layout.lim_lt
  have hparts : wadd (alignPtr b.dataSize) (alignPtr b.offsetsSize) = b.parts :=
    wadd_alignPtr hroom (by omega)
  have hspace : (if b.asyncTransaction then wadd p.freeAsyncSpace (wadd b.parts bufferHeader)
      else p.freeAsyncSpace) = p.freeAsyncSpace + b.asyncSpace := by
    have hasync := h.async
    have hle : b.asyncSpace ≤ asyncSpace p.buffers := by
      rw [hsplit]
      simp only [asyncSpace, map_append, map_cons, sum_append, sum_cons]
      omega
    unfold Proc.limit at hlimit
    unfold Buffer.asyncSpace at hle ⊢
    split
    · next hyes =>
      have hinner : wadd b.parts bufferHeader = b.parts + bufferHeader := wadd_of_lt (by omega)
      rw [if_pos ⟨hlive, hyes⟩] at hle ⊢
      rw [hinner, wadd_of_lt (by omega)]
    · next hno => rw [if_neg fun hand => hno hand.2, Nat.add_zero]
  obtain ⟨f, haddr, hfree, hupdate⟩ : ∃ f : Buffer, f.addr = b.addr ∧ f.free = true ∧
      updateKey Buffer.addr b.addr ({ · with free := true }) p.buffers = pre ++ f :: post :=
    ⟨{ b with free := true }, rfl, rfl, by rw [hsplit]; exact updateKey_split rfl hlay.split_ne.1⟩
  obtain ⟨done, q, hpagerun, rfl, hpending, hacc⟩ := h.release hsplit hlive haddr hfree rb env
  obtain ⟨r, post', hrun, hpending', hhead, hacc'⟩ := mergeNext_spec hpending hacc rb env
  obtain ⟨r', pre', c, hrun', hpending'', hlast, hacc''⟩ := mergePrev_spec hpending' hacc' rb env
  obtain ⟨t, hinsert, hlinked⟩ := hpending''.insert rb hlast hhead
  refine ⟨{ r' with freeBuffers := t }, ?_, ⟨hlinked, hacc''.room, hacc''.async⟩⟩
  have hlow : decide (b.addr < p.buffer) = false := by
    rw [decide_eq_false_iff_not]
    omega
  have hhigh : decide (p.buffer + p.bufferSize < b.addr) = false := by
    rw [show p.buffer + p.bufferSize = lim from hlimit, decide_eq_false_iff_not]
    omega
  have hfits : decide (sizeIn lim p.buffers b.addr < b.parts) = false := by
    rw [decide_eq_false_iff_not]
    omega
  have hend' : wadd (b.addr + bufferHeader) (sizeIn lim p.buffers b.addr)
      = startOf Buffer.addr lim post := by
    rw [hsplit]
    exact hlay.wadd_sizeIn
  rw [haddr] at hrun hrun'
  simp only [binderFreeBuf, h.layout.getBuffer hb, ok_bind, h.size_eq, hparts, hlive, hfits, htr,
    hlow, hhigh, hspace, hend', hpagerun, hupdate, hrun, hrun']
  exact hinsert

/-! ### Allocation -/

lemma FreeOk.take {all : List Buffer}
    (h : FreeOk lim all (pre ++ b :: post) t) (hb : b.free = true) (hc : c.free = false)
    (rb : Rebalance Nat) : FreeOk lim all (pre ++ c :: post) (rb.erase b.addr t) := by
  obtain ⟨hperm, hord⟩ := h.erase hb rb
  refine ⟨?_, hord⟩
  simpa [hc] using hperm

lemma isChain_take (h : (pre ++ b :: post).IsChain NotBothFree) (hc : c.free = false) :
    (pre ++ c :: post).IsChain NotBothFree := by
  obtain ⟨hpre, hpost, -⟩ := isChain_append.mp h
  refine isChain_append.mpr ⟨hpre, isChain_cons.mpr ⟨?_, (isChain_cons.mp hpost).2⟩, ?_⟩
  · rintro d - ⟨hfree, -⟩
    rw [hc] at hfree
    cases hfree
  · rintro d - _ ⟨⟩ ⟨-, hfree⟩
    rw [hc] at hfree
    cases hfree

lemma Layout.split (h : Layout base lim (pre ++ b :: post)) (hn : b.addr + bufferHeader ≤ n.addr)
    (hend : n.addr + bufferHeader ≤ startOf Buffer.addr lim post) :
    Layout base lim (pre ++ b :: n :: post) := by
  obtain ⟨hpre, -, hpost⟩ := tiled_append.mp h.tiled
  refine ⟨h.base_mod, h.lim_mod, h.lim_lt, ?_, tiled_append.mpr ⟨hpre, hn, hend, hpost⟩⟩
  rw [← h.start, startOf_append, startOf_append]
  rfl

lemma usedByte_split (haddr : c.addr = b.addr) (hb : b.free = true)
    (hc : c.free = false) (hn : n.free = true) (hle : b.addr + bufferHeader ≤ n.addr) {x : Nat} :
    UsedByte lim (pre ++ c :: n :: post) x ↔ UsedByte lim (pre ++ b :: post) x ∨
      b.addr + bufferHeader ≤ x ∧ x < n.addr + bufferHeader := by
  rw [usedByte_iff, usedByte_iff, usedByte_cons hn, haddr, hb, hc, startOf_cons]
  simp only [true_and, Bool.true_eq_false, false_and, false_or]
  constructor
  · rintro (hx | hx | hx | hx | hx)
    · exact .inl (.inl hx)
    · exact .inl (.inr (.inl hx))
    · exact .inr ⟨hx.1, by omega⟩
    · exact .inr ⟨by omega, hx.2⟩
    · exact .inl (.inr (.inr hx))
  rintro ((hx | hx | hx) | hx)
  · exact .inl hx
  · exact .inr (.inl hx)
  · exact .inr (.inr (.inr (.inr hx)))
  · by_cases hlt : x < n.addr
    · exact .inr (.inr (.inl ⟨hx.1, hlt⟩))
    · exact .inr (.inr (.inr (.inl ⟨by omega, hx.2⟩)))

section
variable (h : p.Inv base lim) (hsplit : p.buffers = pre ++ b :: post) (hb : b.free = true)
  (haddr : c.addr = b.addr) (hc : c.free = false) (rb : Rebalance Nat)
include h hsplit hb haddr hc

lemma Proc.Inv.take {q : Proc} (hq : q.buffers = pre ++ c :: post)
    (hsame : q.allocatedBuffers = p.allocatedBuffers) : Layout base lim (pre ++ c :: post) ∧ ∃ t,
      binderInsertAllocatedBuffer rb q b.addr = .ok { q with allocatedBuffers := t } ∧
      AllocatedOk (pre ++ c :: post) t ∧
      FreeOk lim (pre ++ c :: post) (pre ++ c :: post) (rb.erase b.addr p.freeBuffers) := by
  have hmap := map_addr_replace hsplit haddr
  have hlay : Layout base lim (pre ++ c :: post) := h.layout.congr hmap
  have halloc : AllocatedOk (pre ++ post) q.allocatedBuffers := by
    rw [hsame]
    refine h.allocated.congr ?_
    rw [hsplit]
    simp [hb]
  obtain ⟨t, hrun, hallocated⟩ := insertAllocated (hq ▸ hlay) hq hc halloc rb
  rw [haddr] at hrun
  refine ⟨hlay, t, hrun, hallocated, ?_⟩
  refine FreeOk.take (?_ : FreeOk lim _ (pre ++ b :: post) _) hb hc rb
  rw [← hsplit]
  exact h.free.congr fun d _ _ => sizeIn_congr_map hmap d.addr

lemma Proc.Inv.pages_whole (hg : b.addr + bufferHeader ≤ g)
    (hle : g ≤ startOf Buffer.addr lim post) (hgap : startOf Buffer.addr lim post ≤ g + 44)
    (hpages : ∀ i, pages i = true ↔ p.pages i = true ∨ ContentsPage base lim b post g i) :
    PagesOk base lim (pre ++ c :: post) pages := by
  intro i
  have hkey := (Layout.contents_pages (hsplit ▸ h.layout) hb hg hle (le_refl _) (.inr hgap) i).1
  rw [hpages i, h.pages i, hsplit, ← hkey]
  exact exists_congr fun x => and_congr_left fun _ => (usedByte_allocated haddr hb hc).symm

section
variable (hn : n.free = true) (hle : b.addr + bufferHeader ≤ n.addr)
  (hend : n.addr + bufferHeader ≤ startOf Buffer.addr lim post)
  (hpages : ∀ i, pages i = true ↔ p.pages i = true ∨
    ContentsPage base lim b post (n.addr + bufferHeader) i)
include hn hle hend hpages

lemma Proc.Inv.pages_split : PagesOk base lim (pre ++ c :: n :: post) pages := by
  intro i
  have hkey := (Layout.contents_pages (hsplit ▸ h.layout) hb (by omega) (le_refl _) hend
    (.inl rfl) i).1
  rw [hpages i, h.pages i, hsplit, ← hkey]
  exact exists_congr fun x => and_congr_left fun _ => (usedByte_split haddr hb hc hn hle).symm

lemma Proc.Inv.take_rest
    (hlay : Layout base lim (pre ++ c :: n :: post)) (hsizes : ∀ a ∈ (pre ++ post).map Buffer.addr,
      sizeIn lim (pre ++ c :: n :: post) a = sizeIn lim (pre ++ c :: post) a)
    (halloc : AllocatedOk (pre ++ c :: post) t)
    (hfree : FreeOk lim (pre ++ c :: post) (pre ++ c :: post) (rb.erase b.addr p.freeBuffers))
    {q : Proc} (hq : q = { p with pages := pages, freeBuffers := rb.erase b.addr p.freeBuffers
                                  buffers := pre ++ c :: n :: post, allocatedBuffers := t }) :
    ∃ t', binderInsertFreeBuffer rb q n.addr = .ok { q with freeBuffers := t' } ∧
      Proc.Linked base lim { q with freeBuffers := t' } := by
  obtain ⟨hchainPre, hchainPost, -⟩ := isChain_append.mp (hsplit ▸ h.chain)
  have hpending : q.Pending base lim (pre ++ [c]) n post := by
    rw [hq]
    refine ⟨⟨h.buffer, h.limit, hlay, h.pages_split hsplit hb haddr hc hn hle hend hpages, ?_⟩,
      by simp, hn, ?_, (isChain_cons.mp hchainPost).2, ?_⟩
    · exact halloc.congr (by simp [hn, hc])
    · refine isChain_append.mpr ⟨hchainPre, isChain_singleton c, ?_⟩
      rintro d - _ ⟨⟩ ⟨-, hcf⟩
      rw [hc] at hcf
      cases hcf
    rw [append_assoc]
    refine hfree.congr ?_
    intro d hd hdfree
    refine hsizes _ (mem_map_of_mem ?_)
    rcases mem_append.mp hd with hd | hd
    · exact mem_append_left _ hd
    · rcases mem_cons.mp hd with rfl | hd
      · rw [hc] at hdfree
        cases hdfree
      · exact mem_append_right _ hd
  refine hpending.insert rb ?_ ?_
  · intro d hd
    rw [getLast?_concat] at hd
    cases hd
    exact hc
  -- The buffer was free, so the one behind it is not.
  intro d hd
  have hnot := (isChain_cons.mp hchainPost).1 d hd
  unfold NotBothFree at hnot
  simpa [hb] using hnot

end

end

lemma Proc.Linked.withSpace (h : p.Linked base lim) (hroom : RoomOk lim p.buffers)
    (hasync : space + asyncSpace p.buffers = p.bufferSize / 2) :
    Proc.Inv base lim { p with freeAsyncSpace := space } :=
  ⟨⟨⟨h.buffer, h.limit, h.layout, h.pages, h.allocated⟩, h.chain, h.free⟩, hroom, hasync⟩

lemma Proc.Accounts.take (h : p.Accounts lim) (bs : List Buffer)
    (hsplit : p.buffers = pre ++ b :: post) (hb : b.free = true) (hc : c.free = false)
    (hparts : c.parts = size) (hca : c.asyncTransaction = isAsync)
    (hspace : isAsync = true → size + bufferHeader ≤ p.freeAsyncSpace)
    (hroom : size ≤ sizeIn lim bs c.addr ∧ sizeIn lim bs c.addr ≤ size + bufferHeader + 4)
    (hsizes : ∀ d ∈ pre ++ post, sizeIn lim bs d.addr = sizeIn lim p.buffers d.addr)
    (hbs : bs = pre ++ c :: post ∨ ∃ n : Buffer, n.free = true ∧ bs = pre ++ c :: n :: post)
    (hval : space = if isAsync then p.freeAsyncSpace - (size + bufferHeader)
      else p.freeAsyncSpace) : RoomOk lim bs ∧ space + asyncSpace bs = p.bufferSize / 2 := by
  have hzero : b.asyncSpace = 0 := by simp [Buffer.asyncSpace, hb]
  have hcspace : c.asyncSpace = if isAsync then size + bufferHeader else 0 := by
    simp [Buffer.asyncSpace, hc, hca, hparts]
  have hasync := h.async
  rw [hsplit] at hasync
  simp only [asyncSpace, map_append, map_cons, sum_append, sum_cons] at hasync
  refine ⟨?_, ?_⟩
  · intro d hd hfree
    have hmem : d = c ∨ d ∈ pre ++ post := by
      rcases hbs with rfl | ⟨n, hn, rfl⟩
      · simp only [mem_append, mem_cons] at hd ⊢
        tauto
      simp only [mem_append, mem_cons] at hd ⊢
      rcases hd with hd | hd | rfl | hd
      · exact .inr (.inl hd)
      · exact .inl hd
      · rw [hn] at hfree
        cases hfree
      · exact .inr (.inr hd)
    rcases hmem with rfl | hmem
    · rw [hparts]
      exact hroom
    rw [hsizes d hmem]
    refine h.room d ?_ hfree
    rw [hsplit]
    simp only [mem_append, mem_cons] at hmem ⊢
    tauto
  have hsum : asyncSpace bs = asyncSpace pre + (c.asyncSpace + asyncSpace post) := by
    rcases hbs with rfl | ⟨n, hn, rfl⟩
    · simp [asyncSpace]
    · have hnzero : n.asyncSpace = 0 := by simp [Buffer.asyncSpace, hn]
      simp [asyncSpace, hnzero]
  rw [hsum, hcspace, hval]
  unfold asyncSpace
  cases isAsync with
  | false =>
    simp only [Bool.false_eq_true, if_false]
    omega
  | true =>
    have := hspace rfl
    simp only [if_true]
    omega

lemma takeBuffer_spec (h : p.Inv base lim) (hsplit : p.buffers = pre ++ b :: post)
    (hb : b.free = true) (rb : Rebalance Nat) (stale : Buffer) {bufferSize : Nat}
    (hsize : size = partsSize d o)
    (hcase : bufferSize = size ∧ b.addr + bufferHeader + size ≤ startOf Buffer.addr lim post ∧
        startOf Buffer.addr lim post ≤ b.addr + bufferHeader + size + 44 ∨
      bufferSize = size + bufferHeader ∧
        b.addr + bufferHeader + size + 44 < startOf Buffer.addr lim post)
    (hspace : isAsync = true → size + bufferHeader ≤ p.freeAsyncSpace)
    (hpages : ∀ i, pages i = true ↔ p.pages i = true ∨
      ContentsPage base lim b post (b.addr + bufferHeader + bufferSize) i) :
    ∃ q, takeBuffer rb stale { p with pages := pages } b.addr size bufferSize d o isAsync = .ok q ∧
      q.Inv base lim := by
  have hlay := hsplit ▸ h.layout
  have hword := hlay.lim_lt
  have hsub : (if isAsync then wsub p.freeAsyncSpace (wadd size bufferHeader)
      else p.freeAsyncSpace)
      = if isAsync then p.freeAsyncSpace - (size + bufferHeader) else p.freeAsyncSpace := by
    have hasync := h.async
    have hlimit := h.limit
    unfold Proc.limit at hlimit
    split
    · next hyes =>
      have hle := hspace hyes
      rw [wadd_of_lt (by omega), wsub_of_le hle (by omega)]
    · rfl
  -- the header before and after the last writes
  obtain ⟨f, hf⟩ : ∃ f : Buffer, f = { b with free := false } := ⟨_, rfl⟩
  obtain ⟨f', hf'⟩ : ∃ f' : Buffer,
      f' = { f with dataSize := d, offsetsSize := o, asyncTransaction := isAsync } := ⟨_, rfl⟩
  have haddr : f.addr = b.addr := by rw [hf]
  have hfree : f.free = false := by rw [hf]
  have hparts : f'.parts = size := by rw [hf', hsize]; rfl
  have hfirst : updateKey Buffer.addr b.addr ({ · with free := false }) p.buffers
      = pre ++ f :: post := by
    rw [hsplit, hf]
    exact updateKey_split rfl hlay.split_ne.1
  have hlast : ∀ rest, updateKey Buffer.addr b.addr
      ({ · with dataSize := d, offsetsSize := o, asyncTransaction := isAsync }) (pre ++ f :: rest)
      = pre ++ f' :: rest := by
    intro rest
    rw [updateKey_split haddr hlay.split_ne.1, hf']
  obtain ⟨hlayf, t, hrun, halloc, hfreeOk⟩ := h.take hsplit hb haddr hfree rb (q := { p with
      pages := pages, freeBuffers := rb.erase b.addr p.freeBuffers, buffers := pre ++ f :: post })
        rfl rfl
  have haddr' : f'.addr = f.addr := by rw [hf']
  have hfree' : f'.free = f.free := by rw [hf']
  rcases hcase with ⟨hsame, hle, hgap⟩ | ⟨hmore, hroom⟩
  · have hlinked : Proc.Linked base lim
        { p with pages := pages, freeBuffers := rb.erase b.addr p.freeBuffers
                 buffers := pre ++ f :: post, allocatedBuffers := t } :=
      ⟨⟨h.buffer, h.limit, hlayf, h.pages_whole hsplit hb haddr hfree (by omega) (hsame ▸ hle)
        (hsame ▸ hgap) hpages, halloc⟩, isChain_take (hsplit ▸ h.chain) hfree, hfreeOk⟩
    have hreplaced := hlinked.replace rfl haddr' hfree'
    have hend := hreplaced.layout.sizeIn_split
    rw [haddr', haddr] at hend
    have hacc := h.toAccounts.take (pre ++ f' :: post) hsplit hb (hfree'.trans hfree) hparts
      (by rw [hf']) hspace (by rw [haddr', haddr]; unfold bufferHeader at *; omega)
      (fun e _ => by rw [hsplit]; exact sizeIn_congr_map (by simp [haddr', haddr]) _)
        (.inl rfl) hsub
    refine ⟨_, ?_, hreplaced.withSpace hacc.1 hacc.2⟩
    simp only [takeBuffer, hfirst, hrun, ok_bind, hsame, ne_eq, pure_bind, hlast]
    rfl
  -- the header of the rest
  obtain ⟨n, hn⟩ : ∃ n : Buffer,
      n = { stale with addr := b.addr + bufferHeader + size, free := true } := ⟨_, rfl⟩
  have hnaddr : n.addr = b.addr + bufferHeader + size := by rw [hn]
  have hnfree : n.free = true := by rw [hn]
  have hlayn : Layout base lim (pre ++ f :: n :: post) :=
    hlayf.split (by omega) (by unfold bufferHeader at *; omega)
  have hsizes : ∀ a ∈ (pre ++ post).map Buffer.addr,
      sizeIn lim (pre ++ f :: n :: post) a = sizeIn lim (pre ++ f :: post) a :=
    fun a ha => sizeIn_congr [f, n] [f] rfl hlayn hlayf ha
  have hg : b.addr + bufferHeader + bufferSize = n.addr + bufferHeader := by omega
  rw [hg] at hpages
  obtain ⟨t', hinsert, hlinked⟩ := h.take_rest hsplit hb haddr hfree rb hnfree (by omega)
    (by unfold bufferHeader at *; omega) hpages hlayn hsizes halloc hfreeOk rfl
  have hreplaced := hlinked.replace (rfl : _ = pre ++ f :: (n :: post)) haddr' hfree'
  have hmap : (pre ++ f' :: n :: post).map Buffer.addr = (pre ++ f :: n :: post).map
      Buffer.addr := by
    simp [haddr']
  have hend := hreplaced.layout.sizeIn_split
  rw [startOf_cons, haddr', haddr] at hend
  have hacc := h.toAccounts.take (pre ++ f' :: n :: post) hsplit hb (hfree'.trans hfree) hparts
    (by rw [hf']) hspace (by rw [haddr', haddr]; omega)
    (fun e he => by
      rw [sizeIn_congr_map hmap, hsizes _ (mem_map_of_mem he), hsplit]
      exact sizeIn_congr_map (by simp [haddr]) _)
    (.inr ⟨n, hnfree, rfl⟩) hsub
  refine ⟨_, ?_, hreplaced.withSpace hacc.1 hacc.2⟩
  have hlink : insertAfter Buffer.addr b.addr
      { stale with addr := b.addr + bufferHeader + size, free := true } (pre ++ f :: post)
      = pre ++ f :: n :: post := by
    rw [← hn]
    exact insertAfter_split haddr hlay.split_ne.1
  rw [hnaddr] at hinsert
  have hne : bufferSize ≠ size := by unfold bufferHeader at *; omega
  simp only [takeBuffer, hfirst, hrun, ok_bind, if_pos hne, hlink, hinsert, hlast]
  rfl

/-- A smallest free buffer of at least this size. -/
def Proc.SmallestFit (p : Proc) (size a : Nat) : Prop :=
  (∃ b ∈ p.buffers, b.addr = a ∧ b.free = true) ∧ size ≤ binderBufferSize p a ∧
    ∀ c ∈ p.buffers, c.free = true → size ≤ binderBufferSize p c.addr →
      binderBufferSize p a ≤ binderBufferSize p c.addr

lemma Proc.Inv.fit (h : p.Inv base lim) {a : Nat}
    (hfit : fit (binderBufferSize p) size p.freeBuffers none = (some a, stop)) :
    p.SmallestFit size a ∧
      if stop then binderBufferSize p a = size else size < binderBufferSize p a := by
  obtain ⟨hmem, hmin, hkey⟩ := fit_some (h.size_eq ▸ h.free.ordered) (by simp) hfit
  have ha : a ∈ inorder p.freeBuffers := hmem.resolve_right (by simp)
  refine ⟨⟨h.free.mem ha, ?_, ?_⟩, hkey⟩
  · cases stop with
    | true =>
      exact hkey.ge
    | false => exact le_of_lt hkey
  · intro c hc hfree hle
    exact hmin _ (h.free.mem_of_free hc hfree) hle

/-- What `binder_alloc_buf` returns, and what it leaves. If it returns no buffer, it changes
nothing. -/
structure AllocResult (base lim : Nat) (p : Proc) (size : Nat) (r : Option Nat × Proc) : Prop where
  inv : r.2.Inv base lim
  unchanged : r.1 = none → r.2 = p
  smallest : ∀ a, r.1 = some a → p.SmallestFit size a

lemma Proc.Inv.allocResult_none (h : p.Inv base lim) (size : Nat) :
    AllocResult base lim p size (none, p) :=
  ⟨h, fun _ => rfl, by simp⟩

lemma bufferSize_cases {room : Nat} (hword : room + 44 < wordSize)
    (hkey : if stop then room = size else size < room) :
    let bufferSize :=
      if stop then room
      else if wadd (wadd size bufferHeader) 4 ≥ room then size
      else wadd size bufferHeader
    bufferSize = size ∧ size ≤ room ∧ room ≤ size + 44 ∨
      bufferSize = size + bufferHeader ∧ size + 44 < room := by
  cases stop with
  | true =>
    simp only [if_true] at hkey ⊢
    exact .inl ⟨hkey, by omega, by omega⟩
  | false =>
    simp only [Bool.false_eq_true, if_false] at hkey ⊢
    have hadd : wadd size bufferHeader = size + bufferHeader :=
      wadd_of_lt (by unfold bufferHeader; omega)
    have hadd' : wadd (size + bufferHeader) 4 = size + bufferHeader + 4 :=
      wadd_of_lt (by unfold bufferHeader; omega)
    rw [hadd, hadd']
    unfold bufferHeader
    split
    · exact .inl ⟨rfl, by omega, by omega⟩
    · exact .inr ⟨rfl, by omega⟩

lemma binderAllocBuf_spec (h : p.Inv base lim) (rb : Rebalance Nat) (env : PageEnv)
    (stale : Buffer) (d o : Nat) (isAsync : Bool) :
    ∃ r, binderAllocBuf rb env stale p d o isAsync = .ok r ∧
      AllocResult base lim p (partsSize d o) r := by
  have hnone := h.allocResult_none (partsSize d o)
  unfold binderAllocBuf
  by_cases hvma : (!p.vma) = true
  · rw [if_pos hvma]
    exact ⟨_, rfl, hnone⟩
  rw [if_neg hvma]
  by_cases hcarry : wadd (alignPtr d) (alignPtr o) < d ∨ wadd (alignPtr d) (alignPtr o) < o
  · rw [if_pos hcarry]
    exact ⟨_, rfl, hnone⟩
  rw [if_neg hcarry]
  obtain ⟨hsize, hlt⟩ := wadd_alignPtr_of_not_lt hcarry
  rw [hsize]
  by_cases hfull : isAsync = true ∧ p.freeAsyncSpace < wadd (partsSize d o) bufferHeader
  · rw [if_pos hfull]
    exact ⟨_, rfl, hnone⟩
  rw [if_neg hfull, bestFit_eq h.layout _ (fun a ha => h.free.mem ha), ok_bind]
  rcases hfit : fit (binderBufferSize p) (partsSize d o) p.freeBuffers none with ⟨best, stop⟩
  cases best with
  | none => exact ⟨_, rfl, hnone⟩
  | some a =>
    obtain ⟨hsmallest, hkey⟩ := h.fit hfit
    obtain ⟨⟨b, hb, rfl, hbfree⟩, hle, -⟩ := id hsmallest
    obtain ⟨pre, post, hsplit⟩ := append_of_mem hb
    have hlay := hsplit ▸ h.layout
    have hpost := hlay.startOf_le
    have hend := hlay.wadd_sizeIn
    have hadd := hlay.sizeIn_split
    rw [← hsplit] at hend hadd
    rw [h.size_eq] at hkey
    have hword := hlay.lim_lt
    have hmod := hlay.lim_mod
    -- the part of the buffer that is taken
    have hcases := bufferSize_cases (by unfold wordSize pageSize at *; omega) hkey
    simp only [h.size_eq, hend]
    generalize hpart : (if stop = true then sizeIn lim p.buffers b.addr
      else if wadd (wadd (partsSize d o) bufferHeader) 4 ≥ sizeIn lim p.buffers b.addr
        then partsSize d o else wadd (partsSize d o) bufferHeader) = bufferSize at hcases ⊢
    have htaken : b.addr + bufferHeader + bufferSize ≤ startOf Buffer.addr lim post := by
      unfold bufferHeader at *
      omega
    rw [wadd_of_lt (htaken.trans_lt (hpost.trans_lt hword))]
    have hempty : ∀ i, ContentsPage base lim b post (b.addr + bufferHeader + bufferSize) i →
        p.pages i = false := by
      intro i hi
      have hnot := (hlay.contents_pages hbfree (Nat.le_add_right _ bufferSize) (le_refl _)
        htaken (.inl rfl) i).2 hi
      rw [← Bool.not_eq_true, h.pages i, hsplit]
      exact hnot
    have hbuf := h.buffer
    have hbounds := h.layout.bounds hb
    obtain ⟨done, hrun, hdone⟩ := binderUpdatePageRange_alloc env _ _ (hbuf ▸ hlay.base_mod)
      (pageAlign_mod _)
      (by have := le_pageAlign hbounds.2 hlay.lim_mod hlay.lim_lt; omega)
      (min_page_mod _ _) false (hbuf ▸ hempty)
    rw [hrun, ok_bind]
    rcases hdone with ⟨hzero, hpages⟩ | ⟨hne, hsame⟩
    · have hspace : isAsync = true → partsSize d o + bufferHeader ≤ p.freeAsyncSpace := by
        intro hyes
        have hnot : ¬p.freeAsyncSpace < wadd (partsSize d o) bufferHeader :=
          fun hlt => hfull ⟨hyes, hlt⟩
        rw [wadd_of_lt (by omega)] at hnot
        omega
      obtain ⟨q, htake, hinv⟩ := takeBuffer_spec h hsplit hbfree rb stale rfl
        (by omega) hspace (hbuf ▸ hpages)
      rw [if_neg (fun hne => hne hzero), htake]
      exact ⟨_, rfl, hinv, by simp, fun a ha => by cases ha; exact hsmallest⟩
    · rw [if_pos hne, hsame]
      exact ⟨_, rfl, hnone⟩

end

end Wm8850.Binder
