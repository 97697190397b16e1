import Wm8850.Proofs.Binder.Calls

/-! # What holds of the buffers in every run

`binder_mmap` establishes `Proc.Inv` (`Mapped.inv`) and every step keeps it (`Proc.Inv.step`), so it
holds in every run. -/

namespace Wm8850.Binder

open Lib List

section
variable {rb : Rebalance Nat} {base lim : Nat} {v : Vma} {p q : Proc} {b : Buffer} {a x : Nat}

lemma AreaOk.layout (h : AreaOk base v) (hb : b.addr = base) : Layout base (base + v.size) [b] := by
  obtain ⟨hbase, hsize, hne, hlt⟩ := h
  have hmod : v.size % pageSize = 0 ∧ bufferHeader ≤ v.size := by
    unfold Vma.size sz4M bufferHeader pageSize at *
    omega
  refine ⟨hbase, ?_, hlt, hb, ?_, trivial⟩
  · rw [Nat.add_mod, hbase, hmod.1]
    rfl
  · show b.addr + bufferHeader ≤ base + v.size
    omega

lemma pagesOk_first (hb : b.addr = base) (hfree : b.free = true) {pages : Nat → Bool}
    (hpages : ∀ i, pages i = true ↔ InRange base base (base + pageSize) i) :
    PagesOk base lim [b] pages := by
  intro i
  have hused : ∀ x, UsedByte lim [b] x ↔ base ≤ x ∧ x < base + bufferHeader := by
    intro x
    rw [usedByte_cons hfree, hb]
    exact or_iff_left not_false
  rw [hpages i]
  constructor
  · intro hi
    refine ⟨base, (hused base).mpr ⟨le_refl _, Nat.lt_add_of_pos_right (by decide)⟩, ?_⟩
    unfold InRange pageIndex pageSize at *
    omega
  · rintro ⟨x, hx, hi⟩
    rw [hused] at hx
    unfold InRange pageIndex bufferHeader pageSize at *
    omega

lemma Mapped.inv (harea : AreaOk base v) (h : Mapped rb base v p) : p.Inv base (base + v.size) := by
  obtain ⟨env, stale, p0, kzalloc, hfree, halloc, hrun⟩ := h
  unfold binderMmap at hrun
  split at hrun
  · simp [EPERM] at hrun
  split at hrun
  · simp [EBUSY] at hrun
  simp only at hrun
  split at hrun
  · simp [ENOMEM] at hrun
  obtain ⟨b, hb⟩ : ∃ b : Buffer, b = { stale with addr := base, free := true } := ⟨_, rfl⟩
  have hbaddr : b.addr = base := by rw [hb]
  have hbfree : b.free = true := by rw [hb]
  have hlay := harea.layout hbaddr
  obtain ⟨done, hpagerun, hdone⟩ := binderUpdatePageRange_alloc
    (p := { p0 with userBufferOffset := wsub v.vmStart base, buffer := base
                    pages := fun _ => false, bufferSize := v.size }) env base (base + pageSize)
    harea.base_mod harea.base_mod (le_refl _)
    (by rw [Nat.add_mod_right]; exact harea.base_mod) true (fun _ _ => rfl)
  rw [hpagerun, ok_bind] at hrun
  rcases hdone with ⟨hzero, hpages⟩ | ⟨hne, -⟩
  · rw [if_neg (fun hne => hne hzero), ← hb] at hrun
    have hpending : Proc.Pending base (base + v.size)
        { p0 with userBufferOffset := wsub v.vmStart base, buffer := base
                  pages := done.2, bufferSize := v.size, buffers := [b] } [] b [] := by
      refine ⟨⟨rfl, rfl, hlay, pagesOk_first hbaddr hbfree ?_, ?_⟩, rfl, hbfree, isChain_nil,
        isChain_nil, ?_⟩
      · intro i
        rw [hpages i]
        simp
      · refine ⟨?_, ?_⟩ <;> simp [halloc, hbfree, Ordered]
      · refine ⟨?_, ?_⟩ <;> simp [hfree, Ordered]
    obtain ⟨t, hinsert, hlinked⟩ := hpending.insert rb (by simp) (by simp)
    rw [hbaddr] at hinsert
    rw [hinsert] at hrun
    cases hrun
    refine ⟨⟨⟨hlinked.buffer, hlinked.limit, hlinked.layout, hlinked.pages, hlinked.allocated⟩,
      hlinked.chain, hlinked.free⟩, ?_, ?_⟩
    · intro d hd hdfree
      rw [mem_singleton.mp hd, hbfree] at hdfree
      cases hdfree
    · simp [asyncSpace, Buffer.asyncSpace, hbfree]
  · rw [if_pos hne] at hrun
    simp [pure, Except.pure, ENOMEM] at hrun

section
variable (h : p.Inv base lim) (ha : p.Live a)
include h ha

lemma Proc.Inv.setTransaction (t : Option Nat) : (p.setTransaction a t).Inv base lim := by
  obtain ⟨b, hb, rfl, hlive⟩ := ha
  obtain ⟨pre, post, hsplit⟩ := append_of_mem hb
  have hupdate : updateKey Buffer.addr b.addr ({ · with transaction := t }) p.buffers
      = pre ++ { b with transaction := t } :: post := by
    rw [hsplit]
    exact updateKey_split rfl (Layout.split_ne (hsplit ▸ h.layout)).1
  have hlinked := h.toLinked.replace (c := { b with transaction := t }) hsplit rfl rfl
  unfold Proc.setTransaction
  rw [hupdate]
  have hmap : (pre ++ { b with transaction := t } :: post).map Buffer.addr =
    p.buffers.map Buffer.addr := by
    rw [hsplit]
    simp
  refine ⟨hlinked, ?_, ?_⟩
  · intro d hd hdfree
    rw [sizeIn_congr_map hmap]
    simp only [mem_append, mem_cons] at hd
    rcases hd with hd | rfl | hd
    · exact h.room d (by rw [hsplit]; simp [hd]) hdfree
    · exact h.room b hb hlive
    · exact h.room d (by rw [hsplit]; simp [hd]) hdfree
  have hasync := h.async
  rw [hsplit] at hasync
  simp only [asyncSpace, map_append] at hasync ⊢
  exact hasync

lemma Proc.Inv.live_setTransaction :
    ∃ b ∈ (p.setTransaction a none).buffers, b.addr = a ∧ b.free = false ∧
      b.transaction = none := by
  obtain ⟨b, hb, rfl, hlive⟩ := ha
  obtain ⟨pre, post, hsplit⟩ := append_of_mem hb
  refine ⟨{ b with transaction := none }, ?_, rfl, hlive, rfl⟩
  show _ ∈ updateKey Buffer.addr b.addr _ p.buffers
  rw [hsplit, updateKey_split rfl (Layout.split_ne (hsplit ▸ h.layout)).1]
  simp

lemma Proc.Inv.freeLive (rb : Rebalance Nat) (env : PageEnv) :
    ∃ q, binderFreeBuf rb env (p.setTransaction a none) a = .ok q ∧ q.Inv base lim := by
  obtain ⟨b, hb, rfl, hlive, htr⟩ := h.live_setTransaction ha
  exact binderFreeBuf_spec (h.setTransaction ha none) hb hlive htr rb env

end

lemma Proc.Inv.step {e : BufferEvent} (h : p.Inv base lim) (hstep : Proc.Step rb e p q) :
    q.Inv base lim := by
  obtain ⟨hvalid, hexec⟩ := hstep
  cases e with
  | alloc d o isAsync env stale =>
    obtain ⟨r, hrun, hr⟩ := binderAllocBuf_spec h rb env stale d o isAsync
    simp only [BufferEvent.exec, hrun] at hexec
    cases hexec
    exact hr.inv
  | free a env =>
    obtain ⟨q', hrun, hq'⟩ := h.freeLive hvalid rb env
    simp only [BufferEvent.exec, hrun] at hexec
    cases hexec
    exact hq'
  | setTransaction a t =>
    cases hexec
    exact h.setTransaction hvalid t
  | vmaClose =>
    cases hexec
    exact ⟨⟨⟨h.buffer, h.limit, h.layout, h.pages, h.allocated⟩, h.chain, h.free⟩, h.room, h.async⟩

lemma inv_of_reach (harea : AreaOk base v) (h : Reach (Mapped rb base v) (Proc.Step rb) p) :
    p.Inv base (base + v.size) :=
  h.invariant _ (fun _ hp => hp.inv harea) fun _ _ _ hp hstep => hp.step hstep

/-! ### The list, the trees and the accounts -/

lemma Proc.Inv.tiles (h : p.Inv base lim) :
    Tiles base lim (p.buffers.map fun b => (b.addr, bufferHeader + binderBufferSize p b.addr)) := by
  have htiles := h.layout.tiled.tiles (by decide)
  rw [h.layout.start] at htiles
  rw [map_congr_left (g := fun b => (b.addr, bufferHeader
    + (endOf Buffer.addr lim b.addr p.buffers - (b.addr + bufferHeader))))]
  · exact htiles
  · intro b hb
    have hadd := h.layout.sizeIn_add hb
    rw [h.size_eq, ← hadd, Nat.add_sub_cancel_left]

lemma Proc.Inv.lookup (h : p.Inv base lim) (userPtr : Nat) :
    ∃ r, binderBufferLookup p userPtr = .ok r ∧ ∀ a, r = some a → p.Live a := by
  refine ⟨_, lookupAllocated_eq h.layout _ (fun a ha => h.allocated.mem ha) h.allocated.ordered, ?_⟩
  intro a ha
  split at ha
  · next hmem =>
    cases ha
    exact h.allocated.mem hmem
  · cases ha

/-- In every run after `binder_mmap`, the buffers tile the area, no two neighbours are free, and the
free tree has the free buffers by size. The next call has no fault, and an allocation takes a
smallest sufficient buffer.
-/
theorem buffers_of_reach (harea : AreaOk base v)
    (hreach : Reach (Mapped rb base v) (Proc.Step rb) p) : Tiles base (base + v.size)
        (p.buffers.map fun b => (b.addr, bufferHeader + binderBufferSize p b.addr)) ∧
      p.buffers.IsChain NotBothFree ∧
      (inorder p.freeBuffers).Perm ((p.buffers.filter fun b => b.free).map Buffer.addr) ∧
      ((inorder p.freeBuffers).Pairwise fun a b => binderBufferSize p a ≤ binderBufferSize p b) ∧
      (∀ b ∈ p.buffers, b.free = false →
        partsSize b.dataSize b.offsetsSize ≤ binderBufferSize p b.addr) ∧
      p.freeAsyncSpace + asyncSpace p.buffers = v.size / 2 ∧
      (∀ env stale d o isAsync, ∃ r, binderAllocBuf rb env stale p d o isAsync = .ok r ∧
        ∀ a, r.1 = some a → p.SmallestFit (partsSize d o) a) ∧
      (∀ env a, p.Live a → ∃ q, binderFreeBuf rb env (p.setTransaction a none) a = .ok q) ∧
      ∀ userPtr, ∃ r, binderBufferLookup p userPtr = .ok r := by
  have h := inv_of_reach harea hreach
  have hsize : p.bufferSize = v.size := by
    have hlimit := h.limit
    unfold Proc.limit at hlimit
    rw [h.buffer] at hlimit
    omega
  refine ⟨h.tiles, h.chain, h.free.perm, ?_, ?_, ?_, ?_, ?_, ?_⟩
  · rw [h.size_eq]
    exact h.free.ordered
  · intro b hb hlive
    rw [h.size_eq]
    exact (h.room b hb hlive).1
  · rw [← hsize]
    exact h.async
  · intro env stale d o isAsync
    obtain ⟨r, hrun, hr⟩ := binderAllocBuf_spec h rb env stale d o isAsync
    exact ⟨r, hrun, hr.smallest⟩
  · intro env a ha
    obtain ⟨q, hrun, -⟩ := h.freeLive ha rb env
    exact ⟨q, hrun⟩
  · intro userPtr
    obtain ⟨r, hrun, -⟩ := h.lookup userPtr
    exact ⟨r, hrun⟩

/-! An area of two pages. An asynchronous buffer is allocated and then one that goes over the end of
the first page, and the first buffer is freed. -/

def smallEnv : PageEnv := ⟨true, fun _ => true, fun _ => true, fun _ => true⟩

def zeroBuffer : Buffer := ⟨0, false, false, none, 0, 0⟩

def smallVma : Vma := ⟨0x40000000, 0x40002000, false⟩

def openedProc : Proc := ⟨0, 0, 0, [], .nil, .nil, 0, fun _ => false, false⟩

def smallMapped : Proc :=
  match
    binderMmap Rebalance.plain smallEnv zeroBuffer openedProc smallVma (some 0xd0000000) true
  with
  | .ok r => r.2
  | .error _ => openedProc

def smallStep (p : Proc) (e : BufferEvent) : Proc :=
  match e.exec Rebalance.plain p with
  | .ok q => q
  | .error _ => p

def smallProc : Proc :=
  [.alloc 100 8 true smallEnv zeroBuffer, .alloc 5000 0 false smallEnv zeroBuffer,
    .free 0xd0000000 smallEnv].foldl smallStep smallMapped

lemma smallArea : AreaOk 0xd0000000 smallVma := ⟨rfl, rfl, by decide, by decide⟩

lemma smallProc_reach :
    Reach (Mapped Rebalance.plain 0xd0000000 smallVma) (Proc.Step Rebalance.plain) smallProc := by
  have hmapped : Mapped Rebalance.plain 0xd0000000 smallVma smallMapped :=
    ⟨smallEnv, zeroBuffer, openedProc, true, rfl, rfl, rfl⟩
  have hstep : ∀ {p : Proc} (e : BufferEvent), e.Valid p → (e.exec Rebalance.plain p).isOk = true →
      Reach (Mapped Rebalance.plain 0xd0000000 smallVma) (Proc.Step Rebalance.plain) p →
      Reach (Mapped Rebalance.plain 0xd0000000 smallVma) (Proc.Step Rebalance.plain)
        (smallStep p e) := by
    intro p e hvalid hok hreach
    refine hreach.next e ⟨hvalid, ?_⟩
    unfold smallStep
    cases hexec : e.exec Rebalance.plain p with
    | ok q => rfl
    | error f =>
      rw [hexec] at hok
      cases hok
  have hfirst := hstep (.alloc 100 8 true smallEnv zeroBuffer) trivial (by decide +kernel)
    (Reach.start hmapped)
  have hsecond := hstep (.alloc 5000 0 false smallEnv zeroBuffer) trivial (by decide +kernel) hfirst
  unfold smallProc
  rw [foldl_cons, foldl_cons, foldl_cons]
  refine hstep (.free 0xd0000000 smallEnv) ?_ (by decide +kernel) hsecond
  show ∃ b ∈ (smallStep _ _).buffers, b.addr = 0xd0000000 ∧ b.free = false
  decide +kernel

theorem smallProc_buffers : Tiles 0xd0000000 0xd0002000
        (smallProc.buffers.map fun b =>
          (b.addr, bufferHeader + binderBufferSize smallProc b.addr)) ∧
      smallProc.buffers.map Buffer.addr = [0xd0000000, 0xd0000094, 0xd0001444] ∧
      smallProc.freeAsyncSpace + asyncSpace smallProc.buffers = 4096 := by
  obtain ⟨htiles, -, -, -, -, hasync, -⟩ := buffers_of_reach smallArea smallProc_reach
  exact ⟨htiles, by decide +kernel, hasync⟩

/-! ### The pages -/

/-- An address in a header. -/
def Proc.InHeader (p : Proc) (x : Nat) : Prop :=
  ∃ b ∈ p.buffers, b.addr ≤ x ∧ x < b.addr + bufferHeader

/-- An address in a buffer in use. -/
def Proc.InContents (p : Proc) (x : Nat) : Prop :=
  ∃ b ∈ p.buffers, b.free = false ∧ b.data ≤ x ∧ x < b.data + binderBufferSize p b.addr

/-- An address in the data or the offsets of a buffer in use. -/
def Proc.InParts (p : Proc) (x : Nat) : Prop :=
  ∃ b ∈ p.buffers, b.free = false ∧ b.data ≤ x ∧ x < b.data + partsSize b.dataSize b.offsetsSize

/-- Some address of `U` is in page `i`. -/
def Proc.Intersects (p : Proc) (i : Nat) (U : Nat → Prop) : Prop :=
  ∃ x, U x ∧ p.buffer + i * pageSize ≤ x ∧ x < p.buffer + (i + 1) * pageSize

section
variable (h : p.Inv base lim)
include h

lemma Proc.Inv.usedByte_iff : UsedByte lim p.buffers x ↔ p.InHeader x ∨ p.InContents x := by
  unfold UsedByte Proc.InHeader Proc.InContents
  rw [used_iff h.layout.nodup, ← exists_or]
  refine exists_congr fun b => ?_
  rw [← and_or_left]
  refine and_congr_right fun hb => or_congr_right ?_
  rw [h.size_eq, ← h.layout.sizeIn_add hb, Bool.not_eq_true']
  rfl

lemma Proc.Inv.onPage_iff {U : Nat → Prop} (hU : ∀ x, U x → base ≤ x)
    (i : Nat) : OnPage base U i ↔ p.Intersects i U := by
  refine exists_congr fun x => and_congr_right fun hx => ?_
  have := hU x hx
  rw [h.buffer]
  unfold pageIndex pageSize
  omega

lemma Proc.Inv.inHeader_le (hx : p.InHeader x) : base ≤ x := by
  obtain ⟨b, hb, hle, -⟩ := hx
  exact (h.layout.bounds hb).1.trans hle

lemma Proc.Inv.onPage_parts (i : Nat) : OnPage base (fun x => p.InHeader x ∨ p.InContents x) i ↔
      OnPage base (fun x => p.InHeader x ∨ p.InParts x) i := by
  constructor
  · rintro ⟨x, hx | ⟨b, hb, hlive, hle, hlt⟩, hi⟩
    · exact ⟨x, .inl hx, hi⟩
    obtain ⟨hroom, hrest⟩ := h.room b hb hlive
    have hadd := h.layout.sizeIn_add hb
    have hend := (h.layout.tiled.endOf_bounds hb).2
    have hbounds := h.layout.bounds hb
    have hmod := h.layout.lim_mod
    have hbase := h.layout.base_mod
    rw [h.size_eq] at hlt
    unfold Buffer.data at hle hlt
    by_cases hpart : x < b.addr + bufferHeader + b.parts
    · exact ⟨x, .inr ⟨b, hb, hlive, hle, hpart⟩, hi⟩
    by_cases hnext : b.addr + bufferHeader + sizeIn lim p.buffers b.addr < lim ∧
        pageIndex base (b.addr + bufferHeader + sizeIn lim p.buffers b.addr) = i
    · -- the next header begins on the page
      rw [hadd] at hnext
      obtain ⟨c, hc, hcaddr⟩ := exists_next hnext.1
      refine ⟨_, .inl ⟨c, hc, hcaddr.le, ?_⟩, hnext.2⟩
      unfold bufferHeader
      omega
    -- the last byte of the parts, or of the header, is on the page
    refine ⟨b.addr + bufferHeader + b.parts - 1, ?_, ?_⟩
    · by_cases hzero : b.parts = 0
      · refine .inl ⟨b, hb, ?_, ?_⟩
        all_goals
          unfold bufferHeader
          omega
      refine .inr ⟨b, hb, hlive, ?_, ?_⟩
      all_goals
        unfold Buffer.data
        unfold Buffer.parts at *
        omega
    · unfold pageIndex bufferHeader pageSize at *
      omega
  rintro ⟨x, hx | ⟨b, hb, hlive, hle, hlt⟩, hi⟩
  · exact ⟨x, .inl hx, hi⟩
  have hroom := (h.room b hb hlive).1
  refine ⟨x, .inr ⟨b, hb, hlive, hle, ?_⟩, hi⟩
  rw [h.size_eq]
  unfold Buffer.parts at hroom
  omega

end

/-- In every run after `binder_mmap`, a page is populated exactly when it intersects a header or the
contents of an allocated buffer. The next call neither populates a page twice nor frees one that is
not populated. -/
theorem pages_of_reach (harea : AreaOk base v)
    (hreach : Reach (Mapped rb base v) (Proc.Step rb) p) :
    (∀ i, p.pages i = true ↔ p.Intersects i fun x => p.InHeader x ∨ p.InContents x) ∧
      (∀ i, p.pages i = true ↔ p.Intersects i fun x => p.InHeader x ∨ p.InParts x) ∧
      (∀ env stale d o isAsync, binderAllocBuf rb env stale p d o isAsync ≠ .error .pageBug ∧
          binderAllocBuf rb env stale p d o isAsync ≠ .error .freeNull ∧
          ∀ q, binderAllocBuf rb env stale p d o isAsync = .ok (none, q) → q.pages = p.pages) ∧
      ∀ env a, p.Live a → binderFreeBuf rb env (p.setTransaction a none) a ≠ .error .pageBug ∧
          binderFreeBuf rb env (p.setTransaction a none) a ≠ .error .freeNull := by
  have h := inv_of_reach harea hreach
  have hpages : ∀ i, p.pages i = true ↔ OnPage base (fun x => p.InHeader x ∨ p.InContents x) i := by
    intro i
    rw [h.pages i]
    exact exists_congr fun x => and_congr_left fun _ => h.usedByte_iff
  have hcontents : ∀ x, p.InContents x → base ≤ x := by
    rintro x ⟨b, hb, -, hle, -⟩
    exact (h.layout.bounds hb).1.trans ((Nat.le_add_right _ _).trans hle)
  have hparts : ∀ x, p.InParts x → base ≤ x := by
    rintro x ⟨b, hb, -, hle, -⟩
    exact (h.layout.bounds hb).1.trans ((Nat.le_add_right _ _).trans hle)
  refine ⟨?_, ?_, ?_, ?_⟩
  · intro i
    rw [hpages i]
    exact h.onPage_iff (fun x hx => hx.elim h.inHeader_le (hcontents x)) i
  · intro i
    rw [hpages i, h.onPage_parts]
    exact h.onPage_iff (fun x hx => hx.elim h.inHeader_le (hparts x)) i
  · intro env stale d o isAsync
    obtain ⟨r, hrun, hr⟩ := binderAllocBuf_spec h rb env stale d o isAsync
    rw [hrun]
    refine ⟨by simp, by simp, ?_⟩
    intro q hq
    cases hq
    exact congrArg Proc.pages (hr.unchanged rfl)
  · intro env a ha
    obtain ⟨q, hrun, -⟩ := h.freeLive ha rb env
    rw [hrun]
    exact ⟨by simp, by simp⟩

theorem smallProc_pages : (∀ i, smallProc.pages i = true ↔
      smallProc.Intersects i fun x => smallProc.InHeader x ∨ smallProc.InContents x) ∧
      smallProc.pages 0 = true ∧ smallProc.pages 1 = true ∧ smallProc.pages 2 = false := by
  refine ⟨(pages_of_reach smallArea smallProc_reach).1, ?_⟩
  decide +kernel

end

end Wm8850.Binder
