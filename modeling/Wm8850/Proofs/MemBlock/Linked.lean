import Wm8850.Proofs.MemBlock.Host

/-! # Blocks and their users

`Mb.Ok`: each user points to the block, the creator is one of the users, and `count` is their
number. `Blocks` says it for a list in which no two blocks and no two users share an address, in any
order (`Blocks.perm`). `Mbah.Linked` adds that each block points to its area. -/

namespace Wm8850.MemBlock

open Lib List

/-- A block and its users belong together. The creator has the address `0` and the size of the
block. -/
structure Mb.Ok (m : Mb) : Prop where
  owner : ∀ u ∈ m.mbuList, u.mb = m.ptr
  creator : ∀ c, m.creator = some c → ∃ u ∈ m.mbuList, u.ptr = c ∧ u.addr = 0 ∧ u.size = m.size
  count : m.count = m.mbuList.length

structure Blocks (l : List Mb) : Prop where
  ok : ∀ m ∈ l, m.Ok
  ptrs : (l.map Mb.ptr).Nodup
  mbus : ((l.flatMap Mb.mbuList).map MbUser.ptr).Nodup

structure Mbah.Linked (h : Mbah) : Prop where
  blocks : Blocks h.mbs
  area : ∀ a ∈ h.mbaList, ∀ m ∈ a.mbList, m.mba = a.ptr

/-! ### Collections of blocks -/

variable {l k : List Mb} {m m' : Mb} {u : MbUser} {h : Mbah} {p : Ptr}

lemma Blocks.perm (h : Blocks l) (hp : l.Perm k) : Blocks k where
  ok m hm := h.ok m (hp.mem_iff.mpr hm)
  ptrs := (hp.map Mb.ptr).nodup_iff.mp h.ptrs
  mbus := ((hp.flatMap_right Mb.mbuList).map MbUser.ptr).nodup_iff.mp h.mbus

lemma blocks_cons : Blocks (m :: l) ↔ m.Ok ∧ (∀ b ∈ l, b.ptr ≠ m.ptr) ∧
    (m.mbuList.map MbUser.ptr).Nodup ∧
        (∀ u ∈ m.mbuList, ∀ v ∈ l.flatMap Mb.mbuList, u.ptr ≠ v.ptr) ∧ Blocks l := by
  constructor
  · intro h
    have hnd := nodup_cons.mp h.ptrs
    have hmbu := h.mbus
    rw [flatMap_cons, map_append, nodup_append] at hmbu
    refine ⟨h.ok m (by simp), fun b hb heq => ?_, hmbu.1, fun u hu v hv => ?_, ?_⟩
    · exact hnd.1 (heq ▸ mem_map_of_mem hb)
    · exact hmbu.2.2 _ (mem_map_of_mem hu) _ (mem_map_of_mem hv)
    · exact ⟨fun b hb => h.ok b (by simp [hb]), hnd.2, hmbu.2.1⟩
  intro h
  obtain ⟨hm, hptr, hnd, hmbu, hl⟩ := h
  refine ⟨fun b hb => ?_, ?_, ?_⟩
  · rcases mem_cons.mp hb with rfl | hb
    · exact hm
    · exact hl.ok b hb
  · rw [map_cons, nodup_cons]
    refine ⟨fun hmem => ?_, hl.ptrs⟩
    obtain ⟨b, hb, heq⟩ := mem_map.mp hmem
    exact hptr b hb heq
  rw [flatMap_cons, map_append, nodup_append]
  refine ⟨hnd, hl.mbus, fun p hp q hq => ?_⟩
  obtain ⟨u, hu, rfl⟩ := mem_map.mp hp
  obtain ⟨v, hv, rfl⟩ := mem_map.mp hq
  exact hmbu u hu v hv

lemma Blocks.sublist (h : Blocks l) (hs : k.Sublist l) : Blocks k where
  ok m hm := h.ok m (hs.subset hm)
  ptrs := h.ptrs.sublist (hs.map Mb.ptr)
  mbus := h.mbus.sublist ((hs.map Mb.mbuList).flatten.map MbUser.ptr)

lemma Blocks.shrink (h : Blocks (m :: l)) (hok : m'.Ok)
    (hptr : m'.ptr = m.ptr) (hsub : m'.mbuList.Sublist m.mbuList) : Blocks (m' :: l) := by
  rw [blocks_cons] at h ⊢
  obtain ⟨-, hptrs, hnd, hmbu, hl⟩ := h
  refine ⟨hok, fun b hb => ?_, hnd.sublist (hsub.map MbUser.ptr), ?_, hl⟩
  · rw [hptr]
    exact hptrs b hb
  · intro u hu v hv
    exact hmbu u (hsub.subset hu) v hv

lemma Blocks.addUser (h : Blocks (m :: l))
    (hok : m'.Ok) (hptr : m'.ptr = m.ptr) (hlist : m'.mbuList = m.mbuList ++ [u])
    (hfresh : ∀ v ∈ (m :: l).flatMap Mb.mbuList, v.ptr ≠ u.ptr) : Blocks (m' :: l) := by
  rw [blocks_cons] at h ⊢
  obtain ⟨-, hptrs, hnd, hmbu, hl⟩ := h
  refine ⟨hok, fun b hb => ?_, ?_, ?_, hl⟩
  · rw [hptr]
    exact hptrs b hb
  · rw [hlist, map_append, nodup_append]
    refine ⟨hnd, by simp, fun p hp q hq => ?_⟩
    obtain ⟨v, hv, rfl⟩ := mem_map.mp hp
    rw [map_singleton, mem_singleton] at hq
    rw [hq]
    exact hfresh v (mem_append_left _ hv)
  intro v hv w hw
  rw [hlist] at hv
  rcases mem_append.mp hv with hv | hv
  · exact hmbu v hv w hw
  · rw [mem_singleton.mp hv]
    exact (hfresh w (mem_append_right _ hw)).symm

lemma Mb.Ok.addUser (h : m.Ok) (hu : u.mb = m.ptr) : (m.addUser u).Ok := by
  refine ⟨fun v hv => ?_, fun c hc => ?_, ?_⟩
  · rcases mem_append.mp hv with hv | hv
    · exact h.owner v hv
    · rw [mem_singleton.mp hv]
      exact hu
  · obtain ⟨v, hv, hk⟩ := h.creator c hc
    exact ⟨v, mem_append_left _ hv, hk⟩
  · show m.count + 1 = ((m.mbuList ++ [u]).length : Int)
    rw [h.count]
    simp

lemma Mb.Ok.delUser (h : m.Ok) (hu : u ∈ m.mbuList) {c : Option Ptr}
    (hc : c = none ∨ (c = m.creator ∧ m.creator ≠ some u.ptr)) :
    Mb.Ok { m.delUser u.ptr with creator := c } := by
  refine ⟨fun v hv => ?_, fun d hd => ?_, ?_⟩
  · exact h.owner v ((eraseKey_sublist MbUser.ptr u.ptr m.mbuList).subset hv)
  · rcases hc with hc | ⟨hc, hne⟩
    · rw [show c = some d from hd] at hc
      exact absurd hc (by simp)
    · have hcd : m.creator = some d := hc.symm.trans hd
      obtain ⟨v, hv, hvd, haddr⟩ := h.creator d hcd
      refine ⟨v, (mem_eraseKey_of_ne fun heq => ?_).mpr hv, hvd, haddr⟩
      exact hne (by rw [hcd, ← hvd, heq])
  · have hlen := length_eraseKey_of_mem MbUser.ptr hu
    show m.count - 1 = ((eraseKey MbUser.ptr u.ptr m.mbuList).length : Int)
    rw [h.count]
    omega

/-! ### The blocks of the host -/

lemma Mbah.mbs_updMb (hnd : (h.mbs.map Mb.ptr).Nodup) (p : Ptr) (f : Mb → Mb) :
    (h.updMb p f).mbs = updateKey Mb.ptr p f h.mbs := by
  show (h.mbaList.map (Mba.updMb p f)).flatMap Mba.mbList = _
  rw [flatMap_map]
  exact flatMap_updateKey h.mbaList hnd

lemma Mbah.mbs_perm {l : List Mba} (hp : h.mbaList.Perm l) : h.mbs.Perm (l.flatMap Mba.mbList) :=
  hp.flatMap_right Mba.mbList

lemma Mbah.mbs_linkMb (hg : h.Layout) {a : Mba} (hp : h.mba? p = some a)
    (next : Option Ptr) (mb : Mb) : (h.linkMb a next mb).mbs.Perm (mb :: h.mbs) := by
  obtain ⟨-, rfl⟩ := findKey_some hp
  have hold := Mbah.mbs_perm (perm_cons_eraseKey hp hg.areas.ptrs)
  have hnew : (h.linkMb a next mb).mbs.Perm
      ((a.linkMb next mb :: eraseKey Mba.ptr a.ptr h.mbaList).flatMap Mba.mbList) :=
    (updateKey_perm hp hg.areas.ptrs).flatMap_right Mba.mbList
  have hlist : (a.linkMb next mb).mbList.Perm (mb :: a.mbList) := by
    exact insertBefore_perm next mb a.mbList
  exact hnew.trans ((hlist.append_right _).trans (hold.symm.cons mb))

lemma Mbah.Linked.find (hl : h.Linked) (hnd : (h.mbaList.map Mba.ptr).Nodup) (hm : m ∈ h.mbs) :
    h.mb? m.ptr = some m ∧ ∃ a, h.mba? m.mba = some a ∧ findKey Mb.ptr m.ptr a.mbList = some m := by
  refine ⟨findKey_of_mem hl.blocks.ptrs hm, ?_⟩
  obtain ⟨a, ha, hma⟩ := mem_flatMap.mp hm
  refine ⟨a, ?_, ?_⟩
  · rw [hl.area a ha m hma]
    exact findKey_of_mem hnd ha
  · have hsub : a.mbList.Sublist h.mbs := sublist_flatten_of_mem (mem_map_of_mem ha)
    exact findKey_of_mem (hl.blocks.ptrs.sublist (hsub.map Mb.ptr)) hma

lemma mbFreeMb_mbs (hg : h.Layout) (hl : h.Linked) (hm : m ∈ h.mbs)
    (hc : m.count = 0) : (mbFreeMb h m.ptr).1.mbs.Perm (eraseKey Mb.ptr m.ptr h.mbs) := by
  obtain ⟨hmb, a, hmba, hfind⟩ := hl.find hg.areas.ptrs hm
  have hptr := (findKey_some hmba).2
  have hmba' : h.mba? a.ptr = some a := hptr ▸ hmba
  have hnd := hg.areas.ptrs
  have ha := hg.areas.layout a (findKey_some hmba).1
  -- The blocks are those of `a` and the others, and `m` is one of `a`.
  have hold := Mbah.mbs_perm (perm_cons_eraseKey hmba' hnd)
  have hma := perm_cons_eraseKey hfind ha.ptrs
  rw [flatMap_cons] at hold
  generalize hrest : (eraseKey Mba.ptr a.ptr h.mbaList).flatMap Mba.mbList = rest at hold
  have herase : (eraseKey Mb.ptr m.ptr h.mbs).Perm (eraseKey Mb.ptr m.ptr a.mbList ++ rest) :=
    ((perm_cons_eraseKey hmb hl.blocks.ptrs).symm.trans
      (hold.trans (hma.append_right rest))).cons_inv
  refine List.Perm.trans ?_ herase.symm
  -- Both ways, the list of `a` loses `m`.
  have hset : ∀ b : Mba, b.ptr = a.ptr → b.mbList = eraseKey Mb.ptr m.ptr a.mbList →
      (h.setMba b).mbs.Perm (eraseKey Mb.ptr m.ptr a.mbList ++ rest) := by
    intro b hb hlist
    have hperm : (h.setMba b).mbaList.Perm (b :: eraseKey Mba.ptr a.ptr h.mbaList) := by
      rw [Mbah.setMba, hb]
      exact updateKey_perm hmba' hnd
    have hmbs := Mbah.mbs_perm hperm
    rw [flatMap_cons, hlist, hrest] at hmbs
    exact hmbs
  by_cases hlast : (a.unlinkMb m.ptr).nrMb = 0 ∧ (a.unlinkMb m.ptr).isStatic = false
  · -- The area goes back to the kernel. It has no block left.
    have hrun : mbFreeMb h m.ptr = mbFreeMba (h.setMba (a.unlinkMb m.ptr)) (a.unlinkMb m.ptr) := by
      unfold mbFreeMb
      simp [hmb, hc, hmba, hfind, if_pos hlast]
    have hempty : eraseKey Mb.ptr m.ptr a.mbList = [] := by
      have hnr := (ha.unlinkMb hfind).1.nr
      rw [show (a.unlinkMb m.ptr).recount.nrMb = (a.unlinkMb m.ptr).nrMb from rfl, hlast.1] at hnr
      exact length_eq_zero_iff.mp hnr.symm
    have hl' : (h.setMba (a.unlinkMb m.ptr)).mbaList.Perm
        (a.unlinkMb m.ptr :: eraseKey Mba.ptr a.ptr h.mbaList) := updateKey_perm hmba' hnd
    have hnd' : ((h.setMba (a.unlinkMb m.ptr)).mbaList.map Mba.ptr).Nodup := by
      rw [(hl'.map Mba.ptr).nodup_iff]
      exact ((perm_cons_eraseKey hmba' hnd).map Mba.ptr).nodup_iff.mp hnd
    have hf : (h.setMba (a.unlinkMb m.ptr)).mba? (a.unlinkMb m.ptr).ptr
        = some (a.unlinkMb m.ptr) := findKey_of_mem hnd' (hl'.mem_iff.mpr mem_cons_self)
    have hdrop := ((perm_cons_eraseKey hf hnd').symm.trans hl').cons_inv
    rw [hrun, mbFreeMba_eq hf hlast.1 hlast.2, hempty, ← hrest]
    exact hdrop.flatMap_right Mba.mbList
  have hrun : (mbFreeMb h m.ptr).1 = h.recountMba a (a.unlinkMb m.ptr).recount := by
    unfold mbFreeMb
    simp [hmb, hc, hmba, hfind, if_neg hlast]
  rw [hrun]
  exact hset (a.unlinkMb m.ptr).recount rfl rfl

lemma mbFreeMba_sublist (h : Mbah) (a : Mba) : (mbFreeMba h a).1.mbaList.Sublist h.mbaList := by
  unfold mbFreeMba
  split
  · exact List.Sublist.refl _
  split
  · exact List.Sublist.refl _
  · split
    · exact List.Sublist.refl _
    · exact eraseKey_sublist Mba.ptr _ _

lemma mbFreeMba_linked (hl : h.Linked) (a : Mba) : (mbFreeMba h a).1.Linked := by
  have hsub := mbFreeMba_sublist h a
  refine ⟨hl.blocks.sublist (hsub.map Mba.mbList).flatten, fun b hb m hm => ?_⟩
  exact hl.area b (hsub.subset hb) m hm

lemma mbFreeMb_area {b : Mba} (hb : b ∈ (mbFreeMb h p).1.mbaList) :
    ∃ a ∈ h.mbaList, a.ptr = b.ptr ∧ b.mbList ⊆ a.mbList := by
  -- Replacing an area by one with fewer blocks is enough in both cases.
  have hset : ∀ a c : Mba, a ∈ h.mbaList → c.ptr = a.ptr → c.mbList ⊆ a.mbList →
      b ∈ (h.setMba c).mbaList → ∃ a ∈ h.mbaList, a.ptr = b.ptr ∧ b.mbList ⊆ a.mbList := by
    intro a c ha hptr hsub hmem
    rcases mem_of_mem_updateKey hmem with ⟨_, _, _, rfl⟩ | hmem
    · exact ⟨a, ha, hptr.symm, hsub⟩
    · exact ⟨b, hmem, rfl, fun _ => id⟩
  rcases mbFreeMb_cases h p with heq | ⟨mb, a, m, -, -, hmba, hfind, ⟨hnr, hst, heq⟩ | heq⟩
  · rw [heq] at hb
    exact ⟨b, hb, rfl, fun _ => id⟩
  · have hsub := (eraseKey_sublist Mb.ptr p a.mbList).subset
    rw [heq] at hb
    have hb' := (mbFreeMba_sublist _ _).subset hb
    exact hset a (a.unlinkMb p) (findKey_some hmba).1 rfl hsub hb'
  · have hsub := (eraseKey_sublist Mb.ptr p a.mbList).subset
    rw [heq] at hb
    exact hset a (a.unlinkMb p).recount (findKey_some hmba).1 rfl hsub hb

lemma mbFreeMb_linked (hg : h.Layout) (hl : h.Linked) (p : Ptr) : (mbFreeMb h p).1.Linked := by
  refine ⟨?_, fun b hb m hm => ?_⟩
  · rcases mbFreeMb_cases h p with heq | ⟨mb, -, -, hmb, hc, -⟩
    · rw [heq]
      exact hl.blocks
    · obtain ⟨hmem, rfl⟩ := findKey_some hmb
      refine Blocks.perm ?_ (mbFreeMb_mbs hg hl hmem hc).symm
      exact (blocks_cons.mp (hl.blocks.perm (perm_cons_eraseKey hmb hl.blocks.ptrs))).2.2.2.2
  · obtain ⟨a, ha, hptr, hsub⟩ := mbFreeMb_area hb
    rw [hl.area a ha m (hsub hm), hptr]

end Wm8850.MemBlock
