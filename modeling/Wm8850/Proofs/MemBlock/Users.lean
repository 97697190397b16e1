import Wm8850.Proofs.MemBlock.Linked

/-! # How users come and go

Five code paths find a user, unlink it and lower the count of its block. All but `MBIO_UNMAP` and
`MBIO_FREE` then free a block whose count is zero: `Mbah.dropUser` is this common end. -/

namespace Wm8850.MemBlock

open Lib List

variable {addr : Nat} {tgid : Int} {st : MbuFind} {h : Mbah} {m : Mb} {u v : MbUser}

/-- The invariant of the host. -/
structure Mbah.Wf (h : Mbah) : Prop where
  layout : h.Layout
  linked : h.Linked

/-- Every block has a user. -/
def Mbah.Held (h : Mbah) : Prop := ∀ m ∈ h.mbs, m.mbuList ≠ []

lemma Mbah.Held.perm {l : List Mb} (hp : h.mbs.Perm l) : h.Held ↔ ∀ m ∈ l, m.mbuList ≠ [] := by
  constructor
  · intro hh m hm
    exact hh m (hp.mem_iff.mpr hm)
  · intro hh m hm
    exact hh m (hp.mem_iff.mp hm)

/-! ### The searches -/

lemma mbFindMb_mem {type : MbFind} (hf : mbFindMb h addr type = some m) : m ∈ h.mbs := by
  unfold mbFindMb at hf
  split at hf
  · exact absurd hf (by simp)
  · obtain ⟨a, ha, hf⟩ := exists_of_findSome?_eq_some hf
    split at hf
    · exact absurd hf (by simp)
    · exact mem_flatMap.mpr ⟨a, ha, mem_of_find?_eq_some hf⟩

lemma mbFindMbu_visit (hf : mbFindMbu h addr tgid st = some u) :
    addr ≠ 0 ∧ ∃ m ∈ h.mbs, ∃ v ∈ m.mbuList, st.visit addr tgid m v = some (some u) := by
  unfold mbFindMbu at hf
  split at hf
  · exact absurd hf (by simp)
  next hcond =>
  refine ⟨fun h0 => hcond (.inl h0), ?_⟩
  have hf' := Option.join_eq_some_iff.mp hf
  obtain ⟨a, ha, hf'⟩ := exists_of_findSome?_eq_some hf'
  split at hf'
  · exact absurd hf' (by simp)
  obtain ⟨m, hm, hf'⟩ := exists_of_findSome?_eq_some hf'
  split at hf'
  · exact absurd hf' (by simp)
  · obtain ⟨v, hv, hf'⟩ := exists_of_findSome?_eq_some hf'
    exact ⟨m, mem_flatMap.mpr ⟨a, ha, hm⟩, v, hv, hf'⟩

lemma mbFindMbu_mem (hf : mbFindMbu h addr tgid st = some u)
    (hall : st.all = false) (hcreator : st.creator = false)
    (hmmap : st.mmap = true → st.user = true) : ∃ m ∈ h.mbs, u ∈ m.mbuList ∧ u.addr ≠ 0 := by
  obtain ⟨h0, m, hm, v, hv, hvisit⟩ := mbFindMbu_visit hf
  unfold MbuFind.visit at hvisit
  rw [hall, hcreator] at hvisit
  split at hvisit
  · exact absurd hvisit (by simp)
  split at hvisit
  · exact absurd hvisit (by simp)
  next huser =>
  simp only [Bool.false_eq_true, if_false] at hvisit
  split at hvisit
  · next hmap =>
    cases hvisit
    refine ⟨m, hm, hv, fun haddr => huser ⟨hmmap hmap.1, ?_⟩⟩
    rw [haddr]
    exact h0
  split at hvisit
  · next hget =>
    cases hvisit
    exact ⟨m, hm, hv, hget.2.1⟩
  · exact absurd hvisit (by simp)

lemma Mb.creatorMbu_some {c : MbUser} (hc : m.creatorMbu = some c) :
    c ∈ m.mbuList ∧ m.creator = some c.ptr := by
  obtain ⟨p, hp, hfind⟩ := Option.bind_eq_some_iff.mp hc
  obtain ⟨hmem, rfl⟩ := findKey_some hfind
  exact ⟨hmem, hp⟩

lemma mbFindMbu_creator (hf : mbFindMbu h addr tgid { phys := true, creator := true } = some u) :
    ∃ m ∈ h.mbs, u ∈ m.mbuList ∧ m.creator = some u.ptr := by
  obtain ⟨-, m, hm, v, hv, hvisit⟩ := mbFindMbu_visit hf
  have hc : m.creatorMbu = some u := by
    unfold MbuFind.visit at hvisit
    split at hvisit
    · exact absurd hvisit (by simp)
    · simpa using hvisit
  exact ⟨m, hm, Mb.creatorMbu_some hc⟩

section
variable (hl : h.Linked) (hm : m ∈ h.mbs)
include hl hm

lemma Mbah.Linked.find_owner (hu : u ∈ m.mbuList) : h.mb? u.mb = some m := by
  rw [(hl.blocks.ok m hm).owner u hu]
  exact findKey_of_mem hl.blocks.ptrs hm

lemma Mbah.Linked.mbu_unique (hu : u ∈ m.mbuList) (hv : v ∈ m.mbuList) (heq : u.ptr = v.ptr) :
    u = v := by
  have hsub : m.mbuList.Sublist (h.mbs.flatMap Mb.mbuList) :=
    sublist_flatten_of_mem (mem_map_of_mem hm)
  have hnd := hl.blocks.mbus.sublist (hsub.map MbUser.ptr)
  have h1 := findKey_of_mem hnd hu
  rw [heq, findKey_of_mem hnd hv] at h1
  exact (Option.some.inj h1).symm

lemma Mbah.Linked.ne_creator (hu : u ∈ m.mbuList) (haddr : u.addr ≠ 0) :
    m.creator ≠ some u.ptr := by
  intro hc
  obtain ⟨v, hv, hptr, hv0, -⟩ := (hl.blocks.ok m hm).creator u.ptr hc
  rw [hl.mbu_unique hm hv hu hptr] at hv0
  exact haddr hv0

/-! ### Writing the users of a block -/

lemma Mbah.Linked.mbs_updMb_perm (f : Mb → Mb) :
    (h.updMb m.ptr f).mbs.Perm (f m :: eraseKey Mb.ptr m.ptr h.mbs) := by
  rw [Mbah.mbs_updMb hl.blocks.ptrs]
  exact updateKey_perm (findKey_of_mem hl.blocks.ptrs hm) hl.blocks.ptrs

lemma Mbah.Linked.mbs_perm_cons : h.mbs.Perm (m :: eraseKey Mb.ptr m.ptr h.mbs) :=
  perm_cons_eraseKey (findKey_of_mem hl.blocks.ptrs hm) hl.blocks.ptrs

lemma Mbah.Linked.updMb {f : Mb → Mb}
    (hmba : ∀ x, (f x).mba = x.mba) (hb : Blocks (f m :: eraseKey Mb.ptr m.ptr h.mbs)) :
    (h.updMb m.ptr f).Linked := by
  refine ⟨hb.perm (hl.mbs_updMb_perm hm f).symm, fun b hb' x hx => ?_⟩
  obtain ⟨a, ha, rfl⟩ := mem_map.mp hb'
  rcases mem_of_mem_updateKey hx with ⟨y, hy, -, rfl⟩ | hx
  · rw [hmba]
    exact hl.area a ha y hy
  · exact hl.area a ha x hx

end

lemma Mbah.shape_addUser (h : Mbah) (p : Ptr) (u : MbUser) :
    (h.updMb p (Mb.addUser u)).shape = h.shape :=
  Mbah.shape_updMb h p fun _ => rfl

lemma Mbah.Wf.addUser (hw : h.Wf) (hm : m ∈ h.mbs) (hu : u.mb = m.ptr)
    (hfresh : ∀ v ∈ h.mbus, v.ptr ≠ u.ptr) :
    (h.updMb m.ptr (Mb.addUser u)).Wf := by
  refine ⟨hw.layout.of_shape (h.shape_addUser _ _), hw.linked.updMb hm (fun _ => rfl) ?_⟩
  have hperm := hw.linked.mbs_perm_cons hm
  refine (hw.linked.blocks.perm hperm).addUser (u := u)
    ((hw.linked.blocks.ok m hm).addUser hu) rfl rfl fun v hv => ?_
  exact hfresh v ((hperm.flatMap_right Mb.mbuList).mem_iff.mpr hv)

lemma Mbah.Wf.addUser_held (hw : h.Wf) (hm : m ∈ h.mbs) (u : MbUser)
    (hh : h.Held) : (h.updMb m.ptr (Mb.addUser u)).Held := by
  rw [Mbah.Held.perm (hw.linked.mbs_updMb_perm hm _)]
  intro b hb
  rcases mem_cons.mp hb with rfl | hb
  · exact append_ne_nil_of_right_ne_nil _ (by simp)
  · exact hh b ((eraseKey_sublist Mb.ptr _ _).subset hb)

def Mb.unlinkUser (q : Ptr) (g : Option Ptr → Option Ptr) (m : Mb) : Mb :=
  { m.delUser q with creator := g m.creator }

lemma Mbah.Wf.unlinkUser (hw : h.Wf) (hm : m ∈ h.mbs) (hu : u ∈ m.mbuList)
    {g : Option Ptr → Option Ptr}
    (hg : g m.creator = none ∨ (g m.creator = m.creator ∧ m.creator ≠ some u.ptr)) :
    (h.updMb m.ptr (Mb.unlinkUser u.ptr g)).Wf := by
  refine ⟨hw.layout.of_shape (h.shape_updMb _ fun _ => rfl), hw.linked.updMb hm (fun _ => rfl) ?_⟩
  refine (hw.linked.blocks.perm (hw.linked.mbs_perm_cons hm)).shrink ?_ rfl ?_
  · exact (hw.linked.blocks.ok m hm).delUser hu hg
  · exact eraseKey_sublist MbUser.ptr u.ptr m.mbuList

/-! ### Dropping a user and freeing the block -/

/-- The common end of the calls that drop a user of the block `m`: the block is freed when its
count reaches zero. -/
def Mbah.dropUser (h : Mbah) (m : Mb) (f : Mb → Mb) : Mbah :=
  if m.count - 1 ≠ 0 then h.updMb m.ptr f else (mbFreeMb (h.updMb m.ptr f) m.ptr).1

section
variable {h : Mbah} (hw : h.Wf) {m : Mb} (hm : m ∈ h.mbs) {u : MbUser} (hu : u ∈ m.mbuList)
  {g : Option Ptr → Option Ptr}
  (hg : g m.creator = none ∨ (g m.creator = m.creator ∧ m.creator ≠ some u.ptr))
include hw hm hu hg

lemma mbs_dropUser : (h.dropUser m (Mb.unlinkUser u.ptr g)).mbs.Perm
      (if m.mbuList.length = 1 then eraseKey Mb.ptr m.ptr h.mbs
        else Mb.unlinkUser u.ptr g m :: eraseKey Mb.ptr m.ptr h.mbs) := by
  have hcount := (hw.linked.blocks.ok m hm).count
  have hperm := hw.linked.mbs_updMb_perm hm (Mb.unlinkUser u.ptr g)
  unfold Mbah.dropUser
  by_cases h1 : m.mbuList.length = 1
  · rw [if_neg (by omega), if_pos h1]
    have hw' := hw.unlinkUser hm hu hg
    have hmem : Mb.unlinkUser u.ptr g m ∈ (h.updMb m.ptr (Mb.unlinkUser u.ptr g)).mbs :=
      hperm.mem_iff.mpr mem_cons_self
    have hzero : (Mb.unlinkUser u.ptr g m).count = 0 := by
      show m.count - 1 = 0
      omega
    have hfree := mbFreeMb_mbs hw'.layout hw'.linked hmem hzero
    have hcons := hw'.linked.mbs_perm_cons hmem
    exact hfree.trans (hcons.symm.trans hperm).cons_inv
  · rw [if_pos (by omega), if_neg h1]
    exact hperm

lemma wf_dropUser : (h.dropUser m (Mb.unlinkUser u.ptr g)).Wf := by
  have hw' := hw.unlinkUser hm hu hg
  unfold Mbah.dropUser
  split
  · exact hw'
  · exact ⟨mbFreeMb_layout hw'.layout _, mbFreeMb_linked hw'.layout hw'.linked _⟩

lemma held_dropUser (hh : h.Held) : (h.dropUser m (Mb.unlinkUser u.ptr g)).Held := by
  rw [Mbah.Held.perm (mbs_dropUser hw hm hu hg)]
  intro b hb
  have hrest : ∀ b ∈ eraseKey Mb.ptr m.ptr h.mbs, b.mbuList ≠ [] :=
    fun b hb => hh b ((eraseKey_sublist Mb.ptr _ _).subset hb)
  split at hb
  · exact hrest b hb
  next h1 =>
  rcases mem_cons.mp hb with rfl | hb
  · intro hnil
    have hlen := length_eraseKey_of_mem MbUser.ptr hu
    have hnil' : eraseKey MbUser.ptr u.ptr m.mbuList = [] := hnil
    rw [hnil'] at hlen
    exact h1 hlen.symm
  · exact hrest b hb

lemma mem_mbus_dropUser : v ∈ (h.dropUser m (Mb.unlinkUser u.ptr g)).mbus ↔ v ∈ h.mbus ∧ v ≠ u := by
  have hperm := hw.linked.mbs_perm_cons hm
  have hblocks := hw.linked.blocks.perm hperm
  obtain ⟨-, -, hnd, hdis, -⟩ := blocks_cons.mp hblocks
  have hold : v ∈ h.mbus ↔ v ∈ m.mbuList ∨
      v ∈ (eraseKey Mb.ptr m.ptr h.mbs).flatMap Mb.mbuList := by
    rw [Mbah.mbus, (hperm.flatMap_right Mb.mbuList).mem_iff, flatMap_cons, mem_append]
  have hnew : v ∈ (h.dropUser m (Mb.unlinkUser u.ptr g)).mbus ↔
      v ∈ eraseKey MbUser.ptr u.ptr m.mbuList ∨
        v ∈ (eraseKey Mb.ptr m.ptr h.mbs).flatMap Mb.mbuList := by
    rw [Mbah.mbus, ((mbs_dropUser hw hm hu hg).flatMap_right Mb.mbuList).mem_iff]
    split
    · next h1 =>
      -- The block is gone, and its one user was `u`.
      have hnil : eraseKey MbUser.ptr u.ptr m.mbuList = [] := by
        have hlen := length_eraseKey_of_mem MbUser.ptr hu
        exact length_eq_zero_iff.mp (by omega)
      rw [hnil]
      simp
    · rw [flatMap_cons, mem_append]
      rfl
  have herase : v ∈ eraseKey MbUser.ptr u.ptr m.mbuList ↔ v ∈ m.mbuList ∧ v ≠ u := by
    rw [mem_eraseKey hnd]
    constructor
    · intro hv
      exact ⟨hv.1, fun heq => hv.2 (by rw [heq])⟩
    · intro hv
      exact ⟨hv.1, fun hptr => hv.2 (hw.linked.mbu_unique hm hv.1 hu hptr)⟩
  rw [hnew, hold, herase]
  constructor
  · rintro (⟨hv, hne⟩ | hv)
    · exact ⟨.inl hv, hne⟩
    · exact ⟨.inr hv, fun heq => hdis u hu v hv (by rw [heq])⟩
  · rintro ⟨hv | hv, hne⟩
    · exact .inl ⟨hv, hne⟩
    · exact .inr hv

lemma mem_dropUser_of_ne {b : Mb} (hb : b ∈ h.mbs) (hne : b.ptr ≠ m.ptr) :
    b ∈ (h.dropUser m (Mb.unlinkUser u.ptr g)).mbs := by
  rw [(mbs_dropUser hw hm hu hg).mem_iff]
  have hrest : b ∈ eraseKey Mb.ptr m.ptr h.mbs := (mem_eraseKey_of_ne hne).mpr hb
  split
  · exact hrest
  · exact mem_cons_of_mem _ hrest

end

/-! ### `mb_do_free` and `mb_do_put` -/

lemma mbDoFree_cases (h : Mbah) (addr : Nat) (tgid : Int) (name : Option Name) :
    (mbDoFree h addr tgid name).1 = h ∨
      ∃ u m, mbFindMbu h addr tgid { phys := true, creator := true } = some u ∧
        h.mb? u.mb = some m ∧
        (mbDoFree h addr tgid name).1 = h.dropUser m (Mb.unlinkUser u.ptr fun _ => none) := by
  unfold mbDoFree
  split
  · exact .inl rfl
  cases hf : mbFindMbu h addr tgid { phys := true, creator := true } with
  | none => exact .inl rfl
  | some u =>
    cases hm : h.mb? u.mb with
    | none => exact .inl (by simp [hm])
    | some m =>
      refine .inr ⟨u, m, rfl, hm, ?_⟩
      simp only [hm, Mbah.dropUser]
      split <;> rfl

lemma putMbu_cases (h : Mbah) (found : Option MbUser) : (putMbu h found).1 = h ∨
      ∃ u m, found = some u ∧ h.mb? u.mb = some m ∧
        (putMbu h found).1 = h.dropUser m (Mb.unlinkUser u.ptr id) := by
  unfold putMbu
  cases found with
  | none => exact .inl rfl
  | some u =>
    cases hm : h.mb? u.mb with
    | none => exact .inl (by simp [hm])
    | some m =>
      simp only [hm]
      by_cases hc : m.count = 0
      · rw [if_pos hc]
        exact .inl rfl
      rw [if_neg hc]
      refine .inr ⟨u, m, rfl, hm, ?_⟩
      unfold Mbah.dropUser
      by_cases h1 : m.count - 1 = 0
      · rw [if_pos h1, if_neg (by omega)]
        rfl
      · rw [if_neg h1, if_pos (by omega)]
        rfl

lemma mbDoFree_drops (hw : h.Wf) (addr : Nat) (tgid : Int) (name : Option Name) :
    (mbDoFree h addr tgid name).1 = h ∨ ∃ m ∈ h.mbs, ∃ u ∈ m.mbuList,
        mbFindMbu h addr tgid { phys := true, creator := true } = some u ∧ m.creator = some u.ptr ∧
        (mbDoFree h addr tgid name).1 = h.dropUser m (Mb.unlinkUser u.ptr fun _ => none) := by
  rcases mbDoFree_cases h addr tgid name with heq | ⟨u, m, hf, hm, heq⟩
  · exact .inl heq
  obtain ⟨m', hm', hu, hc⟩ := mbFindMbu_creator hf
  have hown := hw.linked.find_owner hm' hu
  rw [hm] at hown
  cases hown
  exact .inr ⟨m, hm', u, hu, hf, hc, heq⟩

lemma putMbu_drops (hw : h.Wf) (hall : st.all = false) (hcreator : st.creator = false)
    (hmmap : st.mmap = false) : (putMbu h (mbFindMbu h addr tgid st)).1 = h ∨
      ∃ m ∈ h.mbs, ∃ u ∈ m.mbuList, mbFindMbu h addr tgid st = some u ∧ m.creator ≠ some u.ptr ∧
        (putMbu h (mbFindMbu h addr tgid st)).1 = h.dropUser m (Mb.unlinkUser u.ptr id) := by
  rcases putMbu_cases h (mbFindMbu h addr tgid st) with heq | ⟨u, m, hf, hm, heq⟩
  · exact .inl heq
  obtain ⟨m', hm', hu, haddr⟩ := mbFindMbu_mem hf hall hcreator (by rw [hmmap]; simp)
  have hown := hw.linked.find_owner hm' hu
  rw [hm] at hown
  cases hown
  exact .inr ⟨m, hm', u, hu, hf, hw.linked.ne_creator hm' hu haddr, heq⟩

lemma mbDoFree_wf (hw : h.Wf) (addr : Nat) (tgid : Int) (name : Option Name) :
    (mbDoFree h addr tgid name).1.Wf ∧ (h.Held → (mbDoFree h addr tgid name).1.Held) := by
  rcases mbDoFree_drops hw addr tgid name with heq | ⟨m, hm, u, hu, -, -, heq⟩
  · rw [heq]
    exact ⟨hw, id⟩
  · rw [heq]
    exact ⟨wf_dropUser hw hm hu (.inl rfl), held_dropUser hw hm hu (.inl rfl)⟩

lemma putMbu_wf (hw : h.Wf) (hall : st.all = false) (hcreator : st.creator = false)
    (hmmap : st.mmap = false) : (putMbu h (mbFindMbu h addr tgid st)).1.Wf ∧
      (h.Held → (putMbu h (mbFindMbu h addr tgid st)).1.Held) := by
  rcases putMbu_drops hw hall hcreator hmmap with heq | ⟨m, hm, u, hu, -, hne, heq⟩
  · rw [heq]
    exact ⟨hw, id⟩
  · rw [heq]
    exact ⟨wf_dropUser hw hm hu (.inr ⟨rfl, hne⟩), held_dropUser hw hm hu (.inr ⟨rfl, hne⟩)⟩

lemma mbDoPut_wf (hw : h.Wf) (addr : Nat) (tgid : Int) (name : Option Name) :
    (mbDoPut h addr tgid name).1.Wf ∧ (h.Held → (mbDoPut h addr tgid name).1.Held) := by
  unfold mbDoPut
  split
  · exact ⟨hw, id⟩
  · split <;> exact putMbu_wf hw rfl rfl rfl

lemma mbioPutByPhys_wf (hw : h.Wf) (value : Nat) (tgid : Int) :
    (mbioPutByPhys h value tgid).1.Wf ∧ (h.Held → (mbioPutByPhys h value tgid).1.Held) := by
  unfold mbioPutByPhys
  split
  · exact ⟨hw, id⟩
  · exact putMbu_wf hw rfl rfl rfl

/-! ### What `mb_do_alloc` does -/

def Mb.linkCreator (u q : Ptr) (tgid : Int) (size : Nat) (name : Name) (m : Mb) : Mb :=
  { m.addUser { ptr := u, mb := q, tgid := tgid, addr := 0, size := size,
                theUser := copyName name } with creator := some u }

variable {h : Mbah} {p : Ptr} {a : Mba} {size n : Nat} {cfg : Config}

lemma placeMb_cases (hp : h.mba? p = some a) (ha : a.Layout)
    (hsize : 0 < pageAlign size / pageSize) (tgid : Int) (name : Name) (u : Ptr)
    (slab : Option Ptr) : ((a.maxAvailablePages < pageAlign size / pageSize ∨ slab = none) ∧
      placeMb h p (pageAlign size) tgid name u slab = (h, 0)) ∨
    ∃ q zs next l k, pageAlign size / pageSize ≤ a.maxAvailablePages ∧ slab = some q ∧
      a.Slot (pageAlign size / pageSize) zs next l k ∧ placeMb h p (pageAlign size) tgid name u slab
        = ((h.linkMb a next (a.newMb q zs (pageAlign size / pageSize * pageSize))).updMb q
            (Mb.linkCreator u q tgid (pageAlign size / pageSize * pageSize) name),
          (a.newMb q zs (pageAlign size / pageSize * pageSize)).phys) := by
  have halign : pageAlign (pageAlign size) = pageAlign size / pageSize * pageSize := by
    rw [pageAlign_pageAlign]
    exact pageAlign_eq size
  unfold placeMb
  rcases mbAllocMb_cases hp ha halign hsize slab with
    ⟨hlt, heq⟩ | ⟨-, hnone, heq⟩ | ⟨hle, q, zs, next, l, k, hslab, hslot, heq⟩
  · rw [heq]
    exact .inl ⟨.inl hlt, rfl⟩
  · rw [heq]
    exact .inl ⟨.inr hnone, rfl⟩
  · rw [heq]
    exact .inr ⟨q, zs, next, l, k, hle, hslab, hslot, rfl⟩

/-- `mb_do_alloc` leaves the host alone and returns `0`, or it places the block in an area:
the first one with a large enough cached maximum, or a new one. -/
theorem mbDoAlloc_cases (cfg : Config) (h : Mbah) (size : Nat) (tgid : Int)
    (name : Option Name) (out : AllocOutcome) : mbDoAlloc cfg h size tgid name out = (h, 0) ∨
    ∃ nm u h' a, name = some nm ∧ 0 < pageAlign size / pageSize ∧ out.mbu = some u ∧
      mbDoAlloc cfg h size tgid name out = placeMb h' a.ptr (pageAlign size) tgid nm u out.mb ∧
      ((h' = h ∧ h.mbaList.find? (fun entry =>
          decide (entry.maxAvailablePages ≥ pageAlign size / pageSize)) = some a) ∨
        (cfg.dynamicAllocate = true ∧ ∃ p virt phys n, out.page.mba = some p ∧
          mbAllocPages cfg out.page (pageAlign size / pageSize) = some (virt, phys, n) ∧
          a = newMba p virt phys n ∧ h' = h.linkMba a)) := by
  unfold mbDoAlloc
  cases name with
  | none => exact .inl rfl
  | some nm =>
    by_cases hpages : pageAlign size / pageSize = 0
    · exact .inl (by simp only [if_pos hpages])
    have hpos : 0 < pageAlign size / pageSize := pos_of_ne_zero hpages
    simp only [if_neg hpages]
    cases hu : out.mbu with
    | none => exact .inl rfl
    | some u =>
      dsimp only
      split
      · split
        · next hdyn =>
          rcases mbAllocMba_cases cfg out.page (pageAlign size / pageSize) h with
            heq | ⟨p, virt, phys, n, hp, hpg, heq⟩
          · rw [heq]
            exact .inl rfl
          · rw [heq]
            exact .inr ⟨nm, u, _, newMba p virt phys n, rfl, hpos, rfl, rfl,
              .inr ⟨hdyn, p, virt, phys, n, hp, hpg, rfl, rfl⟩⟩
        · exact .inl rfl
      cases hfind : h.mbaList.find? fun entry =>
        decide (entry.maxAvailablePages ≥ pageAlign size / pageSize) with
      | none => exact .inl rfl
      | some a =>
        exact .inr ⟨nm, u, h, a, rfl, hpos, rfl, rfl, .inl ⟨rfl, rfl⟩⟩

lemma linkMba_layout {out : PageOutcome} (hg : h.Layout)
    (hs : out.Sound cfg h n) {p virt phys k : Nat} (hp : out.mba = some p)
    (hpg : mbAllocPages cfg out n = some (virt, phys, k)) :
    (h.linkMba (newMba p virt phys k)).Layout ∧
      (h.linkMba (newMba p virt phys k)).mba? p = some (newMba p virt phys k) ∧
      (h.linkMba (newMba p virt phys k)).mbs = h.mbs := by
  obtain ⟨hlay, hap⟩ := newMba_layout hs hp hpg
  have hlink : (h.linkMba (newMba p virt phys k)).Layout := by
    refine ⟨hg.toTotals.linkMba hlay hap, ?_⟩
    show max h.maxAvailablePages k = _
    rw [hg.max]
    simp [Mbah.linkMba, newMba]
  have hmem : newMba p virt phys k ∈ (h.linkMba (newMba p virt phys k)).mbaList := by
    simp [Mbah.linkMba]
  refine ⟨hlink, findKey_of_mem hlink.areas.ptrs hmem, ?_⟩
  simp [Mbah.mbs, Mbah.linkMba, newMba]

lemma Mbah.Wf.linkMb (hw : h.Wf) (hp : h.mba? p = some a)
    {zs : Nat} (hn : 0 < n) {next : Option Ptr} {l k : List Mb}
    (hslot : a.Slot n zs next l k) {q : Ptr} (hfresh : ∀ m ∈ h.mbs, m.ptr ≠ q) :
    (h.linkMb a next (a.newMb q zs (n * pageSize))).Wf := by
  have hperm := Mbah.mbs_linkMb hw.layout hp next (a.newMb q zs (n * pageSize))
  refine ⟨hw.layout.linkMb hp hn hslot hfresh, Blocks.perm ?_ hperm.symm, fun b hb m hm => ?_⟩
  · refine blocks_cons.mpr ⟨⟨?_, ?_, rfl⟩, hfresh, nodup_nil, ?_, hw.linked.blocks⟩
    · intro u hu
      exact absurd hu (not_mem_nil)
    · intro c hc
      exact absurd hc (by simp [Mba.newMb])
    · intro u hu
      exact absurd hu (not_mem_nil)
  rcases mem_of_mem_updateKey hb with ⟨c, -, -, rfl⟩ | hb
  · rcases mem_insertBefore.mp hm with rfl | hm
    · rfl
    · exact hw.linked.area a (findKey_some hp).1 m hm
  · exact hw.linked.area b hb m hm

lemma placeMb_mbs (hw : h.Wf) (hp : h.mba? p = some a)
    (hsize : 0 < pageAlign size / pageSize) (tgid : Int) (name : Name) {u : Ptr}
    {slab : Option Ptr} (hmb : FreshMb h slab) (hmbu : FreshMbu h (some u)) :
    ((a.maxAvailablePages < pageAlign size / pageSize ∨ slab = none) ∧
      placeMb h p (pageAlign size) tgid name u slab = (h, 0)) ∨
    ∃ q zs next l k, slab = some q ∧ a.Slot (pageAlign size / pageSize) zs next l k ∧
      (placeMb h p (pageAlign size) tgid name u slab).1.Wf ∧
        (placeMb h p (pageAlign size) tgid name u slab).2
        = (a.newMb q zs (pageAlign size / pageSize * pageSize)).phys ∧
      (placeMb h p (pageAlign size) tgid name u slab).1.mbs.Perm
        (Mb.linkCreator u q tgid (pageAlign size / pageSize * pageSize) name
          (a.newMb q zs (pageAlign size / pageSize * pageSize)) :: h.mbs) := by
  have ha := hw.layout.areas.layout a (findKey_some hp).1
  rcases placeMb_cases hp ha hsize tgid name u slab with
    hfail | ⟨q, zs, next, l, k, -, hslab, hslot, heq⟩
  · exact .inl hfail
  refine .inr ⟨q, zs, next, l, k, hslab, hslot, ?_⟩
  rw [heq]
  generalize pageAlign size / pageSize = n at hsize hslot ⊢
  have hfresh := hmb q hslab
  have hw' := hw.linkMb hp hsize hslot hfresh
  have hperm := Mbah.mbs_linkMb hw.layout hp next (a.newMb q zs (n * pageSize))
  have hmem : a.newMb q zs (n * pageSize) ∈ (h.linkMb a next (a.newMb q zs (n * pageSize))).mbs :=
    hperm.mem_iff.mpr mem_cons_self
  have hcons := hw'.linked.mbs_perm_cons hmem
  have hrest := (hcons.symm.trans hperm).cons_inv
  have hupd := hw'.linked.mbs_updMb_perm hmem (Mb.linkCreator u q tgid (n * pageSize) name)
  refine ⟨⟨hw'.layout.of_shape (Mbah.shape_updMb _ _ fun _ => rfl), ?_⟩, rfl,
    hupd.trans (hrest.cons _)⟩
  refine hw'.linked.updMb hmem (fun _ => rfl) ?_
  refine (hw'.linked.blocks.perm hcons).addUser (u := ⟨u, q, tgid, 0, n * pageSize, copyName name⟩)
    ⟨?_, ?_, rfl⟩ rfl rfl fun v hv => ?_
  · intro v hv
    rw [mem_singleton.mp (show v ∈ [_] from hv)]
    rfl
  · intro c hc
    cases hc
    exact ⟨_, mem_singleton.mpr rfl, rfl, rfl, rfl⟩
  · have hv' := (((hcons.symm.trans hperm)).flatMap_right Mb.mbuList).mem_iff.mp hv
    exact hmbu u rfl v hv'

lemma mbDoAlloc_wf (hw : h.Wf) (size : Nat) (tgid : Int)
    (name : Option Name) (out : AllocOutcome) (hmbu : FreshMbu h out.mbu)
    (hmb : FreshMb h out.mb) (hpage : out.page.Sound cfg h (pageAlign size / pageSize)) :
    (mbDoAlloc cfg h size tgid name out).1.Wf ∧
      (h.Held → (mbDoAlloc cfg h size tgid name out).1.Held) := by
  -- The statement for any host with the same blocks, which covers a new area.
  have hplace : ∀ (h' : Mbah) (a : Mba) (nm : Name) (u : Ptr), h'.Wf → h'.mbs = h.mbs →
      h'.mba? a.ptr = some a → 0 < pageAlign size / pageSize → out.mbu = some u →
      (placeMb h' a.ptr (pageAlign size) tgid nm u out.mb).1.Wf ∧
        (h.Held → (placeMb h' a.ptr (pageAlign size) tgid nm u out.mb).1.Held) := by
    intro h' a nm u hw' hmbs hp hpos hu
    have hmb' : FreshMb h' out.mb := by
      unfold FreshMb
      rw [hmbs]
      exact hmb
    have hmbu' : FreshMbu h' (some u) := by
      unfold FreshMbu Mbah.mbus
      rw [hmbs, ← hu]
      exact hmbu
    rcases placeMb_mbs hw' hp hpos tgid nm hmb' hmbu' with
      ⟨-, heq⟩ | ⟨q, zs, _, _, _, _, _, hwf, _, hperm⟩
    · rw [heq]
      refine ⟨hw', fun hh m hm => hh m ?_⟩
      rw [← hmbs]
      exact hm
    · refine ⟨hwf, fun hh => (Mbah.Held.perm hperm).mpr fun m hm => ?_⟩
      rcases mem_cons.mp hm with rfl | hm
      · exact append_ne_nil_of_right_ne_nil _ (by simp)
      · exact hh m (hmbs ▸ hm)
  rcases mbDoAlloc_cases cfg h size tgid name out with
    heq | ⟨nm, u, h', a, -, hpos, hu, heq, ⟨rfl, hfind⟩ | ⟨-, p, virt, phys, n, hp, hpg, rfl, rfl⟩⟩
  · rw [heq]
    exact ⟨hw, id⟩
  · rw [heq]
    have hp := findKey_of_mem hw.layout.areas.ptrs (mem_of_find?_eq_some hfind)
    exact hplace h' a nm u hw rfl hp hpos hu
  rw [heq]
  obtain ⟨hlink, hf, hmbs⟩ := linkMba_layout hw.layout hpage hp hpg
  refine hplace _ _ nm u ⟨hlink, ?_, fun b hb m hm => ?_⟩ hmbs hf hpos hu
  · rw [hmbs]
    exact hw.linked.blocks
  · rcases mem_append.mp hb with hb | hb
    · exact hw.linked.area b hb m hm
    · rw [mem_singleton.mp hb] at hm
      exact absurd hm not_mem_nil

end Wm8850.MemBlock
