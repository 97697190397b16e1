import Wm8850.Proofs.MemBlock.Isolation

/-! # When a put undoes a get

The get of the kernel takes any address inside a block, the put only its first. The get of a task
goes by one of its mappings, the put by the first get of the task at the address, in whatever block.
Both puts drop the first get they meet, which can be an older one. -/

namespace Wm8850.MemBlock

open Lib List

variable {b : Mb} {st : MbuFind} {tgid : Int} {name : Name} {h : Mbah} {m : Mb} {u : MbUser}
  {addr : Nat}
    {pre post : List Mb}

/-! ### Users and counts after a drop -/

/-- A user apart from the address of its slab object. -/
def MbUser.record (u : MbUser) : MbUser := { u with ptr := 0 }

/-- The users, counts and free pages are as before. -/
structure Mbah.Restores (h h' : Mbah) : Prop where
  users : (h'.mbus.map MbUser.record).Perm (h.mbus.map MbUser.record)
  counts : (h'.mbs.map fun m => (m.ptr, m.count)).Perm (h.mbs.map fun m => (m.ptr, m.count))
  areas : (h'.mbaList.map fun a => (a.ptr, a.totFreePages)).Perm
    (h.mbaList.map fun a => (a.ptr, a.totFreePages))
  free : h'.totFreePages = h.totFreePages

lemma Mbah.Linked.mbus_addUser (hl : h.Linked) (hm : m ∈ h.mbs)
    (u : MbUser) : (h.updMb m.ptr (Mb.addUser u)).mbus.Perm (u :: h.mbus) := by
  have hnew := (hl.mbs_updMb_perm hm (Mb.addUser u)).flatMap_right Mb.mbuList
  have hold := (hl.mbs_perm_cons hm).flatMap_right Mb.mbuList
  have hmove : ((m.mbuList ++ [u]) ++ (eraseKey Mb.ptr m.ptr h.mbs).flatMap Mb.mbuList).Perm
      (u :: (m.mbuList ++ (eraseKey Mb.ptr m.ptr h.mbs).flatMap Mb.mbuList)) := by
    rw [append_assoc]
    exact perm_middle
  exact hnew.trans (hmove.trans (hold.symm.cons u))

lemma mbus_dropUser (hw : h.Wf) (hm : m ∈ h.mbs) (hu : u ∈ m.mbuList) {g : Option Ptr → Option Ptr}
    (hg : g m.creator = none ∨ (g m.creator = m.creator ∧ m.creator ≠ some u.ptr)) :
    h.mbus.Perm (u :: (h.dropUser m (Mb.unlinkUser u.ptr g)).mbus) := by
  have hold := (hw.linked.mbs_perm_cons hm).flatMap_right Mb.mbuList
  have hnew := (mbs_dropUser hw hm hu hg).flatMap_right Mb.mbuList
  have hnd := (blocks_cons.mp (hw.linked.blocks.perm (hw.linked.mbs_perm_cons hm))).2.2.1
  have herase := perm_cons_eraseKey (findKey_of_mem hnd hu) hnd
  refine hold.trans ((herase.append_right _).trans (List.Perm.cons u (List.Perm.symm ?_)))
  refine hnew.trans ?_
  split
  · next h1 =>
    -- The block is gone, and `u` was its only user.
    have hlen := length_eraseKey_of_mem MbUser.ptr hu
    rw [length_eq_zero_iff.mp (show (eraseKey MbUser.ptr u.ptr m.mbuList).length = 0 by omega)]
    exact List.Perm.refl _
  · exact List.Perm.refl _

section
variable {h : Mbah} (hw : h.Wf) {m : Mb} (hm : m ∈ h.mbs) {u : MbUser} (hu : u.mb = m.ptr)
  (hfresh : ∀ v ∈ h.mbus, v.ptr ≠ u.ptr)
include hw hm hu hfresh

lemma eq_addUser_of_ptr (hb : b ∈ (h.updMb m.ptr (Mb.addUser u)).mbs) (hptr : b.ptr = m.ptr) :
    b = m.addUser u := by
  have hl := (hw.addUser hm hu hfresh).linked
  have hmem : m.addUser u ∈ (h.updMb m.ptr (Mb.addUser u)).mbs :=
    (hw.linked.mbs_updMb_perm hm _).mem_iff.mpr mem_cons_self
  have h1 := findKey_of_mem hl.blocks.ptrs hb
  have h2 : findKey Mb.ptr m.ptr _ = some (m.addUser u) := findKey_of_mem hl.blocks.ptrs hmem
  rw [hptr, h2] at h1
  exact (Option.some.inj h1).symm

/-- The user `u` was just added, and now `v` is dropped. The holds are as before exactly when
the two users are alike and `u` did not come to a block without users. -/
theorem restores_dropUser_iff (hb : b ∈ (h.updMb m.ptr (Mb.addUser u)).mbs) {v : MbUser}
    (hv : v ∈ b.mbuList) (hne : b.creator ≠ some v.ptr) :
    h.Restores ((h.updMb m.ptr (Mb.addUser u)).dropUser b (Mb.unlinkUser v.ptr id)) ↔
      v.record = u.record ∧ m.mbuList ≠ [] := by
  have hw' := hw.addUser hm hu hfresh
  have hg : id b.creator = none ∨ (id b.creator = b.creator ∧ b.creator ≠ some v.ptr) :=
    .inr ⟨rfl, hne⟩
  have hmbus : (u :: h.mbus).Perm (v :: ((h.updMb m.ptr (Mb.addUser u)).dropUser b
      (Mb.unlinkUser v.ptr id)).mbus) :=
    (hw.linked.mbus_addUser hm u).symm.trans (mbus_dropUser hw' hb hv hg)
  have hmbs := mbs_dropUser hw' hb hv hg
  -- Alike users have the same block.
  have hblock : v.record = u.record → b = m.addUser u := by
    intro hrec
    have howner := (hw'.linked.blocks.ok b hb).owner v hv
    have hmb : v.mb = u.mb := by
      show v.record.mb = u.record.mb
      rw [hrec]
    exact eq_addUser_of_ptr hw hm hu hfresh hb (by rw [← howner, hmb, hu])
  have hlen : (m.addUser u).mbuList.length = m.mbuList.length + 1 := by
    show (m.mbuList ++ [u]).length = _
    simp
  constructor
  · intro hr
    have hrec : v.record = u.record := by
      have hperm := (hmbus.map MbUser.record).trans (hr.users.cons v.record)
      have heq : u.record ::ₘ (h.mbus.map MbUser.record : Multiset MbUser)
          = v.record ::ₘ (h.mbus.map MbUser.record : Multiset MbUser) := by
        exact Multiset.coe_eq_coe.mpr hperm
      exact ((Multiset.cons_inj_left _).mp heq).symm
    refine ⟨hrec, fun hnil => ?_⟩
    -- Without another user the block is freed, and its count is gone.
    have hbm := hblock hrec
    have hone : b.mbuList.length = 1 := by
      rw [hbm, hlen, hnil]
      rfl
    rw [if_pos hone] at hmbs
    have hmem : (m.ptr, m.count) ∈ h.mbs.map fun m => (m.ptr, m.count) := mem_map_of_mem hm
    rw [← hr.counts.mem_iff] at hmem
    obtain ⟨c, hc, hcm⟩ := mem_map.mp hmem
    have hcptr : c.ptr = b.ptr := by
      rw [hbm]
      exact congrArg Prod.fst hcm
    exact ((mem_eraseKey hw'.linked.blocks.ptrs).mp (hmbs.mem_iff.mp hc)).2 hcptr
  rintro ⟨hrec, hnil⟩
  have hbm := hblock hrec
  have hpos := length_pos_iff.mpr hnil
  have hmore : b.mbuList.length ≠ 1 := by
    rw [hbm]
    omega
  rw [if_neg hmore] at hmbs
  have hkeep : (h.updMb m.ptr (Mb.addUser u)).dropUser b (Mb.unlinkUser v.ptr id)
      = (h.updMb m.ptr (Mb.addUser u)).updMb b.ptr (Mb.unlinkUser v.ptr id) := by
    have hcount := (hw'.linked.blocks.ok b hb).count
    exact if_pos (by omega)
  refine ⟨?_, ?_, ?_, ?_⟩
  · have hperm := hmbus.map MbUser.record
    rw [map_cons, map_cons, hrec] at hperm
    exact hperm.cons_inv.symm
  · -- The other blocks are those of `h`.
    have hrest : (eraseKey Mb.ptr b.ptr (h.updMb m.ptr (Mb.addUser u)).mbs).Perm
        (eraseKey Mb.ptr m.ptr h.mbs) := by
      have hcons := hw'.linked.mbs_perm_cons hb
      have hupd := hw.linked.mbs_updMb_perm hm (Mb.addUser u)
      rw [← hbm] at hupd
      exact (hcons.symm.trans hupd).cons_inv
    have hnew := (hmbs.trans (hrest.cons _)).map fun m => (m.ptr, m.count)
    have hold := (hw.linked.mbs_perm_cons hm).map fun m => (m.ptr, m.count)
    have hhead : ((Mb.unlinkUser v.ptr id b).ptr, (Mb.unlinkUser v.ptr id b).count) =
        (m.ptr, m.count) := by
      rw [hbm]
      show (m.ptr, m.count + 1 - 1) = (m.ptr, m.count)
      rw [Int.add_sub_cancel]
    rw [map_cons, hhead] at hnew
    exact hnew.trans hold.symm
  · rw [hkeep]
    show ((((h.mbaList.map _).map _)).map _).Perm _
    rw [map_map, map_map]
    exact List.Perm.refl _
  · rw [hkeep]
    rfl

end

/-! ### What the put finds -/

lemma mbFindMbu_users (h : Mbah) (addr : Nat) (tgid : Int) (hst : st.creator = false) :
    mbFindMbu h addr tgid st = ((h.mbsAt addr st).flatMap Mb.mbuList).find?
      (st.passes addr tgid) := by
  have hsnd : ((h.mbsAt addr st).flatMap fun m => m.mbuList.map (Prod.mk m)).map Prod.snd
      = (h.mbsAt addr st).flatMap Mb.mbuList := by
    simp [map_flatMap]
  rw [mbFindMbu_eq, ← hsnd, find?_map]
  show (find? _ _).bind _ = Option.map Prod.snd (find? _ _)
  simp only [MbuFind.result, hst, Bool.and_false, Function.comp_def]
  cases find? _ _ <;> rfl

lemma mbsAt_user (h : Mbah) (haddr : addr ≠ 0) (huser : st.user = true)
    (hvirt : st.virt = false) (hphys : st.phys = false) : h.mbsAt addr st = h.mbs := by
  unfold Mbah.mbsAt
  rw [if_neg (by simp [haddr, MbuFind.addrmask, huser])]
  simp [MbuFind.skipsMba, MbuFind.skipsMb, hvirt, hphys, Mbah.mbs]

/-- With a new user at the end of the block `m`, the search stops at an older user in front of
it, or at the new one. -/
theorem mbFindMbu_addUser (hst : st.creator = false)
    (hat : h.mbsAt addr st = pre ++ m.addUser u :: post) (hu : st.passes addr tgid u = true) :
    mbFindMbu h addr tgid st
      = some (((pre.flatMap Mb.mbuList ++ m.mbuList).find? (st.passes addr tgid)).getD u) := by
  rw [mbFindMbu_users h addr tgid hst, hat, flatMap_append]
  show ((pre.flatMap Mb.mbuList) ++ ((m.mbuList ++ [u]) ++ post.flatMap Mb.mbuList)).find? _ = _
  rw [append_assoc, ← append_assoc, find?_append, singleton_append, find?_cons_of_pos hu]
  cases find? _ _ <;> rfl

lemma putMbu_restores_iff (hw : h.Wf) (hm : m ∈ h.mbs)
    (hu : u.mb = m.ptr) (hfresh : ∀ v ∈ h.mbus, v.ptr ≠ u.ptr)
    (hcreator : st.creator = false) (hall : st.all = false) (hmmap : st.mmap = false) 
    (hat : (h.updMb m.ptr (Mb.addUser u)).mbsAt addr st = pre ++ m.addUser u :: post)
    (hpass : st.passes addr tgid u = true) : ((putMbu (h.updMb m.ptr (Mb.addUser u))
        (mbFindMbu (h.updMb m.ptr (Mb.addUser u)) addr tgid st)).2 = 0 ∧
      h.Restores (putMbu (h.updMb m.ptr (Mb.addUser u))
        (mbFindMbu (h.updMb m.ptr (Mb.addUser u)) addr tgid st)).1) ↔
      (∀ v, (pre.flatMap Mb.mbuList ++ m.mbuList).find? (st.passes addr tgid) = some v →
        v.record = u.record) ∧ m.mbuList ≠ [] := by
  have hw' := hw.addUser hm hu hfresh
  have hf := mbFindMbu_addUser hcreator hat hpass
  generalize hv :
    ((pre.flatMap Mb.mbuList ++ m.mbuList).find? (st.passes addr tgid)).getD u = v at hf
  obtain ⟨b, hb, hvb, haddr⟩ := mbFindMbu_mem hf hall hcreator (by rw [hmmap]; simp)
  have hown := hw'.linked.find_owner hb hvb
  have hcount : b.count ≠ 0 := by
    have hpos := length_pos_of_mem hvb
    rw [(hw'.linked.blocks.ok b hb).count]
    omega
  have hret : (putMbu (h.updMb m.ptr (Mb.addUser u)) (some v)).2 = 0 := by
    unfold putMbu
    simp only [hown, if_neg hcount]
    split <;> rfl
  have hne := hw'.linked.ne_creator hb hvb haddr
  rw [hf, putMbu_of_find hown hcount, restores_dropUser_iff hw hm hu hfresh hb hvb hne,
    and_iff_right hret]
  rw [← hv]
  cases (pre.flatMap Mb.mbuList ++ m.mbuList).find? (st.passes addr tgid) with
  | none => simp
  | some w => simp

/-! ### The block of the get -/

lemma mbDoGet_success {slab : Option Ptr} (hget : (mbDoGet h addr tgid (some name) slab).2 = 0) :
    addr ≠ 0 ∧ ∃ p m, slab = some p ∧ getTarget h addr tgid = some m ∧
      (mbDoGet h addr tgid (some name) slab).1 = h.updMb m.ptr (Mb.addUser
        { ptr := p, mb := m.ptr, tgid := tgid, addr := addr, size := 0,
          theUser := copyName name }) := by
  unfold mbDoGet at hget ⊢
  by_cases haddr : addr = 0
  · simp [haddr, EINVAL] at hget
  refine ⟨haddr, ?_⟩
  cases slab with
  | none => simp [haddr, ENOMEM] at hget
  | some p =>
    cases htarget : getTarget h addr tgid with
    | none => simp [htarget, EFAULT, haddr] at hget
    | some m => exact ⟨p, m, rfl, rfl, by simp [haddr]⟩

lemma mbFindMb_some (hf : mbFindMb h addr .phys = some m) :
    addr ≠ 0 ∧ ∃ a ∈ h.mbaList, m ∈ a.mbList ∧ a.outOfRange addr .phys = false ∧
      m.phys ≤ addr ∧ addr < wadd m.phys m.size := by
  unfold mbFindMb at hf
  split at hf
  · exact absurd hf (by simp)
  next haddr =>
  obtain ⟨a, ha, hf⟩ := exists_of_findSome?_eq_some hf
  split at hf
  · exact absurd hf (by simp)
  · next hrange =>
    have htest := find?_some hf
    simp only [Bool.and_eq_true, decide_eq_true_eq] at htest
    exact ⟨haddr, a, ha, mem_of_find?_eq_some hf, by simpa using hrange, htest⟩

lemma Mbah.Layout.mem_addr (hg : h.Layout) (hm : m ∈ h.mbs) :
    m.phys = m.pfnStart * pageSize ∧ m.phys + m.size = m.pfnEnd * pageSize := by
  obtain ⟨a, ha, hm⟩ := mem_flatMap.mp hm
  exact (hg.areas.layout a ha).mem_addr hm

lemma Mbah.Layout.eq_of_phys_mem (hg : h.Layout) (hm : m ∈ h.mbs)
    (hb : b ∈ h.mbs) (hle : m.phys ≤ b.phys) (hlt : b.phys < m.phys + m.size) : b = m := by
  by_contra hne
  have hsymm : Std.Symm fun x y : Mb => Apart (x.pfnStart, x.pfnEnd) (y.pfnStart, y.pfnEnd) :=
    ⟨fun _ _ => Apart.symm⟩
  have hap := hg.frames_apart.forall hm hb fun heq => hne heq.symm
  have hblt := hg.frames_lt hb
  rw [(hg.mem_addr hm).1, (hg.mem_addr hb).1] at hle
  rw [(hg.mem_addr hm).2, (hg.mem_addr hb).1] at hlt
  simp only [pageSize] at hle hlt
  rcases hap with hap | hap
  · omega
  · omega

/-! ### The kernel's pair -/

def MbUser.isGet (v : MbUser) : Bool := decide (v.addr ≠ 0) && decide (v.size = 0)

/-- The address is the first of a block, the block has a user, and its first get is like the new
one. -/
def Mbah.KernelPaired (h : Mbah) (addr : Nat) (name : Name) : Prop :=
  ∃ m ∈ h.mbs, m.phys = addr ∧ m.mbuList ≠ [] ∧
    ∀ v, m.mbuList.find? MbUser.isGet = some v →
      v.tgid = mbDefTgid ∧ v.addr = addr ∧ v.theUser = copyName name

lemma passes_kernelPut (addr : Nat) :
    MbuFind.passes { phys := true, getput := true } addr mbDefTgid = MbUser.isGet := by
  funext v
  simp [MbuFind.passes, MbUser.isGet]

section
variable {h : Mbah} (hw : h.Wf) {addr : Nat} {m : Mb} (hf : mbFindMb h addr .phys = some m)
  {u : MbUser} (hu : u.mb = m.ptr) (hfresh : ∀ v ∈ h.mbus, v.ptr ≠ u.ptr)
include hw hf hu hfresh

lemma mbsAt_kernelPut_of_eq (hphys : m.phys = addr) :
    (h.updMb m.ptr (Mb.addUser u)).mbsAt addr { phys := true, getput := true } = [m.addUser u] := by
  obtain ⟨haddr, a, ha, hma, hrange, -⟩ := mbFindMb_some hf
  have hmem : m.addUser u ∈
      (h.updMb m.ptr (Mb.addUser u)).mbsAt addr { phys := true, getput := true } := by
    unfold Mbah.mbsAt
    rw [if_neg (by simp [haddr, MbuFind.addrmask])]
    refine mem_flatMap.mpr ⟨a.updMb m.ptr (Mb.addUser u), ?_, ?_⟩
    · refine mem_filter.mpr ⟨mem_map_of_mem ha, ?_⟩
      have hrange' : (a.updMb m.ptr (Mb.addUser u)).outOfRange addr .phys = false := hrange
      simp [MbuFind.skipsMba, hrange']
    refine mem_filter.mpr ⟨?_, ?_⟩
    · obtain ⟨pre, post, hlist, hpre, -⟩ := exists_split (hw.layout.areas.layout a ha).ptrs hma
      show m.addUser u ∈ updateKey Mb.ptr m.ptr (Mb.addUser u) a.mbList
      rw [hlist, updateKey_split rfl hpre]
      simp
    · have hphys' : (m.addUser u).phys = addr := hphys
      simp [MbuFind.skipsMb, hphys']
  have hm : m ∈ h.mbs := mbFindMb_mem hf
  have hst : ({ phys := true, getput := true } : MbuFind).phys = true := rfl
  rcases (hw.addUser hm hu hfresh).layout.mbsAt_phys hst with hnil | ⟨b, -, hone⟩
  · rw [hnil] at hmem
    exact absurd hmem not_mem_nil
  · rw [hone] at hmem ⊢
    rw [mem_singleton.mp hmem]

lemma mbsAt_kernelPut_of_ne (hphys : m.phys ≠ addr) :
    (h.updMb m.ptr (Mb.addUser u)).mbsAt addr { phys := true, getput := true } = [] := by
  obtain ⟨-, -, -, -, -, hle, hlt⟩ := mbFindMb_some hf
  have hm : m ∈ h.mbs := mbFindMb_mem hf
  rw [eq_nil_iff_forall_not_mem]
  intro b hb
  have hb_mem := (Mbah.mbsAt_sublist _ _ _).subset hb
  have hb_phys : b.phys = addr := phys_of_mem_mbsAt rfl hb
  have hmem : m.addUser u ∈ (h.updMb m.ptr (Mb.addUser u)).mbs :=
    (hw.linked.mbs_updMb_perm hm _).mem_iff.mpr mem_cons_self
  have hstop : wadd m.phys m.size ≤ m.phys + m.size := Nat.mod_le _ _
  have heq := (hw.addUser hm hu hfresh).layout.eq_of_phys_mem hmem hb_mem
    (show m.phys ≤ b.phys by omega) (show b.phys < m.phys + m.size by omega)
  rw [heq] at hb_phys
  exact hphys hb_phys

lemma kernelPut_restores_iff (hsize : u.size = 0) (haddr : u.addr = addr)
    (htgid : u.tgid = mbDefTgid) (hname : u.theUser = copyName name) :
    ((mbDoPut (h.updMb m.ptr (Mb.addUser u)) addr mbDefTgid (some name)).2 = 0 ∧
      h.Restores (mbDoPut (h.updMb m.ptr (Mb.addUser u)) addr mbDefTgid (some name)).1) ↔
      h.KernelPaired addr name := by
  have hm : m ∈ h.mbs := mbFindMb_mem hf
  obtain ⟨hne0, -, -, -, -, hle, hlt⟩ := mbFindMb_some hf
  have hput : mbDoPut (h.updMb m.ptr (Mb.addUser u)) addr mbDefTgid (some name)
      = putMbu (h.updMb m.ptr (Mb.addUser u)) (mbFindMbu (h.updMb m.ptr (Mb.addUser u)) addr
          mbDefTgid { phys := true, getput := true }) := by
    unfold mbDoPut
    rw [if_neg (by simp [hne0]), if_pos rfl]
  rw [hput]
  by_cases hphys : m.phys = addr
  · have hat := mbsAt_kernelPut_of_eq hw hf hu hfresh hphys
    rw [putMbu_restores_iff hw hm hu hfresh rfl rfl rfl (show _ = [] ++ m.addUser u :: [] from hat)
      (by rw [passes_kernelPut]; simp [MbUser.isGet, hsize, haddr, hne0]), passes_kernelPut]
    -- A get of this block is like the new one when task, address and name are.
    have hlike : ∀ v, m.mbuList.find? MbUser.isGet = some v → (v.record = u.record ↔
          v.tgid = mbDefTgid ∧ v.addr = addr ∧ v.theUser = copyName name) := by
      intro v hv
      have howner := (hw.linked.blocks.ok m hm).owner v (mem_of_find?_eq_some hv)
      have hget := find?_some hv
      simp only [MbUser.isGet, Bool.and_eq_true, decide_eq_true_eq] at hget
      simp [MbUser.record, howner, hu, hget.2, hsize, haddr, htgid, hname]
    constructor
    · rintro ⟨hall, hnil⟩
      exact ⟨m, hm, hphys, hnil, fun v hv => (hlike v hv).mp (hall v hv)⟩
    · rintro ⟨b, hb, hbphys, hnil, hall⟩
      obtain rfl : b = m := hw.layout.phys_unique hb hm (hbphys.trans hphys.symm)
      exact ⟨fun v hv => (hlike v hv).mpr (hall v hv), hnil⟩
  -- The put fails, and no block starts at the address.
  have hnone : mbFindMbu (h.updMb m.ptr (Mb.addUser u)) addr mbDefTgid
      { phys := true, getput := true } = none := by
    rw [mbFindMbu_users _ _ _ rfl, mbsAt_kernelPut_of_ne hw hf hu hfresh hphys]
    rfl
  rw [hnone]
  refine iff_of_false (fun hret => absurd hret.1 (by simp [putMbu, EINVAL])) ?_
  rintro ⟨b, hb, hbphys, -⟩
  have hstop : wadd m.phys m.size ≤ m.phys + m.size := Nat.mod_le _ _
  have heq := hw.layout.eq_of_phys_mem hm hb (by omega) (by omega)
  rw [heq] at hbphys
  exact hphys hbphys

end

/-! ### The pair of a task -/

def MbUser.isGetOf (tgid : Int) (addr : Nat) (v : MbUser) : Bool :=
  decide (v.tgid = tgid) && decide (v.addr = addr) && decide (v.size = 0)

/-- The first block in which the task has a user with the address has a mapping there, and the first
get of the task there, if there is one, has the name of the new one. -/
def Mbah.TaskPaired (h : Mbah) (addr : Nat) (tgid : Int) (name : Name) : Prop :=
  ∃ pre m post, h.mbs = pre ++ m :: post ∧
    (∀ b ∈ pre, ∀ v ∈ b.mbuList, ¬ (v.tgid = tgid ∧ v.addr = addr)) ∧
    (∃ v ∈ m.mbuList, v.tgid = tgid ∧ v.addr = addr ∧ v.size ≠ 0) ∧
    ∀ v, m.mbuList.find? (MbUser.isGetOf tgid addr) = some v → v.theUser = copyName name

section
variable (haddr : addr ≠ 0) (htgid : tgid ≠ mbDefTgid)
include haddr htgid

lemma passes_taskPut :
    MbuFind.passes { user := true, getput := true } addr tgid = MbUser.isGetOf tgid addr := by
  funext v
  rw [Bool.eq_iff_iff]
  simp only [MbuFind.passes, MbUser.isGetOf, Bool.and_eq_true, Bool.or_eq_true,
    decide_eq_true_eq, htgid, or_false, Bool.not_true, Bool.false_eq_true, false_or,
    Bool.false_and, true_and]
  constructor
  · rintro ⟨⟨ht, ha⟩, -, hs⟩
    exact ⟨⟨ht, ha.symm⟩, hs⟩
  · rintro ⟨⟨ht, ha⟩, hs⟩
    exact ⟨⟨ht, ha.symm⟩, by rw [ha]; exact haddr, hs⟩

lemma getTarget_task (hw : h.Wf) (hf : getTarget h addr tgid = some m) :
    ∃ pre post, h.mbs = pre ++ m :: post ∧ (∀ b ∈ pre, b.ptr ≠ m.ptr) ∧
      (∀ b ∈ pre, ∀ v ∈ b.mbuList, ¬ (v.tgid = tgid ∧ v.addr = addr ∧ v.size ≠ 0)) ∧
      ∃ v ∈ m.mbuList, v.tgid = tgid ∧ v.addr = addr ∧ v.size ≠ 0 := by
  have hm := getTarget_mem hf
  obtain ⟨pre, post, hsplit, hpre, -⟩ := exists_split hw.linked.blocks.ptrs hm
  unfold getTarget at hf
  rw [if_pos htgid] at hf
  obtain ⟨w, hw_find, hw_mb⟩ := Option.bind_eq_some_iff.mp hf
  rw [mbFindMbu_users _ _ _ rfl, mbsAt_user h haddr rfl rfl rfl] at hw_find
  have hpass : ∀ v : MbUser, MbuFind.passes { user := true, mmap := true } addr tgid v = true ↔
      v.tgid = tgid ∧ v.addr = addr ∧ v.size ≠ 0 := by
    intro v
    have hsymm : addr = v.addr ↔ v.addr = addr := eq_comm
    simp [MbuFind.passes, htgid, and_assoc, hsymm]
  -- The mapping is one of its block, and its block is `m`.
  obtain ⟨b, hb, hwb⟩ := mem_flatMap.mp (mem_of_find?_eq_some hw_find)
  have hbm : b = m := by
    have hown := hw.linked.find_owner hb hwb
    rw [hw_mb] at hown
    exact (Option.some.inj hown).symm
  subst hbm
  refine ⟨pre, post, hsplit, hpre, fun c hc v hv hmap => ?_, w, hwb,
    (hpass w).mp (find?_some hw_find)⟩
  -- A mapping in front of `m` would have been found before.
  rw [hsplit, flatMap_append, find?_append] at hw_find
  have hsome : (find? (MbuFind.passes { user := true, mmap := true } addr tgid)
      (pre.flatMap Mb.mbuList)).isSome := by
    rw [find?_isSome]
    exact ⟨v, mem_flatMap.mpr ⟨c, hc, hv⟩, (hpass v).mpr hmap⟩
  obtain ⟨x, hx⟩ := Option.isSome_iff_exists.mp hsome
  rw [hx] at hw_find
  cases hw_find
  obtain ⟨d, hd, hxd⟩ := mem_flatMap.mp (mem_of_find?_eq_some hx)
  have hd_mem : d ∈ h.mbs := by
    rw [hsplit]
    exact mem_append_left _ hd
  have hown := hw.linked.find_owner hd_mem hxd
  rw [hw_mb] at hown
  exact hpre d hd (by rw [Option.some.inj hown])

lemma taskPut_restores_iff (hw : h.Wf) (hf : getTarget h addr tgid = some m)
    (hu : u.mb = m.ptr) (hfresh : ∀ v ∈ h.mbus, v.ptr ≠ u.ptr) (husize : u.size = 0)
    (huaddr : u.addr = addr) (hutgid : u.tgid = tgid) (huname : u.theUser = copyName name) :
    ((mbDoPut (h.updMb m.ptr (Mb.addUser u)) addr tgid (some name)).2 = 0 ∧
      h.Restores (mbDoPut (h.updMb m.ptr (Mb.addUser u)) addr tgid (some name)).1) ↔
      h.TaskPaired addr tgid name := by
  have hm := getTarget_mem hf
  obtain ⟨pre, post, hsplit, hpre, hnomap, w, hwm, hwmap⟩ := getTarget_task haddr htgid hw hf
  have hput : mbDoPut (h.updMb m.ptr (Mb.addUser u)) addr tgid (some name)
      = putMbu (h.updMb m.ptr (Mb.addUser u)) (mbFindMbu (h.updMb m.ptr (Mb.addUser u)) addr
          tgid { user := true, getput := true }) := by
    unfold mbDoPut
    rw [if_neg (by simp [haddr]), if_neg htgid]
  have hat : (h.updMb m.ptr (Mb.addUser u)).mbsAt addr { user := true, getput := true }
      = pre ++ m.addUser u :: post := by
    rw [mbsAt_user _ haddr rfl rfl rfl, Mbah.mbs_updMb hw.linked.blocks.ptrs, hsplit,
      updateKey_split rfl hpre]
  rw [hput, putMbu_restores_iff hw hm hu hfresh rfl rfl rfl hat
    (by rw [passes_taskPut haddr htgid]; simp [MbUser.isGetOf, husize, huaddr, hutgid]),
    passes_taskPut haddr htgid, find?_append]
  have hnil : m.mbuList ≠ [] := ne_nil_of_mem hwm
  have hmem_pre : ∀ b ∈ pre, b ∈ h.mbs := by
    intro b hb
    rw [hsplit]
    exact mem_append_left _ hb
  -- A get of the task at the address is like the new one when block and name are.
  have hlike : ∀ v, MbUser.isGetOf tgid addr v = true →
      (v.record = u.record ↔ v.mb = m.ptr ∧ v.theUser = copyName name) := by
    intro v hv
    simp only [MbUser.isGetOf, Bool.and_eq_true, decide_eq_true_eq] at hv
    simp [MbUser.record, hv.1.1, hv.1.2, hv.2, hu, husize, huaddr, hutgid, huname]
  constructor
  · rintro ⟨hall, -⟩
    -- An older get in front of `m` would be found, and has another block.
    have hnoget : (pre.flatMap Mb.mbuList).find? (MbUser.isGetOf tgid addr) = none := by
      cases hpf : (pre.flatMap Mb.mbuList).find? (MbUser.isGetOf tgid addr) with
      | none => rfl
      | some v =>
        obtain ⟨b, hb, hvb⟩ := mem_flatMap.mp (mem_of_find?_eq_some hpf)
        have hrec := hall v (by rw [hpf]; rfl)
        have hvmb := ((hlike v (find?_some hpf)).mp hrec).1
        rw [(hw.linked.blocks.ok b (hmem_pre b hb)).owner v hvb] at hvmb
        exact absurd hvmb (hpre b hb)
    refine ⟨pre, m, post, hsplit, fun b hb v hv hat => ?_, ⟨w, hwm, hwmap⟩, fun v hv => ?_⟩
    · by_cases hsize : v.size = 0
      · have hno := find?_eq_none.mp hnoget v (mem_flatMap.mpr ⟨b, hb, hv⟩)
        exact hno (by simp [MbUser.isGetOf, hat.1, hat.2, hsize])
      · exact hnomap b hb v hv ⟨hat.1, hat.2, hsize⟩
    · have hrec := hall v (by rw [hnoget, hv]; rfl)
      exact ((hlike v (find?_some hv)).mp hrec).2
  rintro ⟨pre', m', post', hsplit', hclear, ⟨x, hxm, hxmap⟩, hname⟩
  -- Both splits are at the first block with a mapping of the task at the address.
  have hsame : pre' = pre ∧ m' = m := by
    rw [hsplit] at hsplit'
    rcases append_eq_append_iff.mp hsplit' with ⟨as, hpre', hrest⟩ | ⟨as, hpre', hrest⟩
    · cases as with
      | nil =>
        injection hrest with h1 h2
        exact ⟨by rw [hpre', append_nil], h1.symm⟩
      | cons c as =>
        injection hrest with h1 h2
        exact absurd ⟨hwmap.1, hwmap.2.1⟩ (hclear m (by rw [hpre', h1]; simp) w hwm)
    cases as with
    | nil =>
      injection hrest with h1 h2
      exact ⟨by rw [hpre', append_nil], h1⟩
    | cons c as =>
      injection hrest with h1 h2
      exact absurd hxmap (hnomap m' (by rw [hpre', h1]; simp) x hxm)
  obtain ⟨rfl, rfl⟩ := hsame
  have hnoget : (pre'.flatMap Mb.mbuList).find? (MbUser.isGetOf tgid addr) = none := by
    rw [find?_eq_none]
    intro v hv hget
    obtain ⟨b, hb, hvb⟩ := mem_flatMap.mp hv
    simp only [MbUser.isGetOf, Bool.and_eq_true, decide_eq_true_eq] at hget
    exact hclear b hb v hvb hget.1
  refine ⟨fun v hv => ?_, hnil⟩
  rw [hnoget] at hv
  have howner := (hw.linked.blocks.ok m' hm).owner v (mem_of_find?_eq_some hv)
  exact (hlike v (find?_some hv)).mpr ⟨howner, hname v hv⟩

end

/-- For every address, task and name with which `mb_do_get` returns `0`: the `mb_do_put` that
follows returns `0` and restores the users, the counts and the free pages exactly when the get and
the put are paired. -/
theorem mbDoPut_undoes_iff {h : Mbah} (hw : h.Wf) {slab : Option Ptr} (hfresh : FreshMbu h slab)
    (addr : Nat) (tgid : Int) (name : Name) (hget : (mbDoGet h addr tgid (some name) slab).2 = 0) :
    ((mbDoPut (mbDoGet h addr tgid (some name) slab).1 addr tgid (some name)).2 = 0 ∧
      h.Restores (mbDoPut (mbDoGet h addr tgid (some name) slab).1 addr tgid (some name)).1) ↔
      if tgid = mbDefTgid then h.KernelPaired addr name else h.TaskPaired addr tgid name := by
  obtain ⟨haddr, p, m, hslab, htarget, hstate⟩ := mbDoGet_success hget
  rw [hstate]
  by_cases htgid : tgid = mbDefTgid
  · subst htgid
    have hfind : mbFindMb h addr .phys = some m := by
      unfold getTarget at htarget
      rwa [if_neg (by simp)] at htarget
    exact kernelPut_restores_iff hw hfind rfl (hfresh p hslab) rfl rfl rfl rfl
  · rw [if_neg htgid]
    exact taskPut_restores_iff haddr htgid hw htarget rfl (hfresh p hslab) rfl rfl rfl rfl

theorem smallAlloc_getPut : ∃ h : Mbah, h.Wf ∧
    (mbDoGet h 0x100000 mbDefTgid (some ['k']) (some 30)).2 = 0 ∧
      (mbDoPut (mbDoGet h 0x100000 mbDefTgid (some ['k']) (some 30)).1 0x100000 mbDefTgid
        (some ['k'])).2 = 0 ∧
      h.Restores (mbDoPut (mbDoGet h 0x100000 mbDefTgid (some ['k']) (some 30)).1 0x100000
        mbDefTgid (some ['k'])).1 := by
  have hw := reachable_wf reachable_smallAlloc
  have hget : (mbDoGet (exec smallConfig smallProbed smallAlloc).mbah 0x100000 mbDefTgid
      (some ['k']) (some 30)).2 = 0 := by decide +kernel
  refine ⟨_, hw, hget,
    (mbDoPut_undoes_iff hw (freshMbu_of_all (by decide +kernel)) _ _ _ hget).mpr ?_⟩
  -- The creator is the one user of the block, and it is not a get.
  have hblock : ∃ m ∈ (exec smallConfig smallProbed smallAlloc).mbah.mbs, m.phys = 0x100000 ∧
      m.mbuList ≠ [] ∧ m.mbuList.find? MbUser.isGet = none := by decide +kernel
  obtain ⟨m, hm, hphys, hnil, hnone⟩ := hblock
  refine ⟨m, hm, hphys, hnil, fun v hv => ?_⟩
  rw [hnone] at hv
  cases hv

/-- The kernel gets the block of the first task by the address of its second page. The put with the
same address fails. -/
theorem smallAlloc_getPut_inside : Reachable smallConfig (exec smallConfig smallProbed smallAlloc) ∧
    (mbDoGet (exec smallConfig smallProbed smallAlloc).mbah 0x101000 mbDefTgid (some ['k'])
      (some 30)).2 = 0 ∧
    (mbDoPut (mbDoGet (exec smallConfig smallProbed smallAlloc).mbah 0x101000 mbDefTgid
      (some ['k']) (some 30)).1 0x101000 mbDefTgid (some ['k'])).2 = -EINVAL ∧
    (exec smallConfig smallProbed smallAlloc).mbah.mbs.map Mb.count = [1] ∧
    (mbDoPut (mbDoGet (exec smallConfig smallProbed smallAlloc).mbah 0x101000 mbDefTgid
      (some ['k']) (some 30)).1 0x101000 mbDefTgid (some ['k'])).1.mbs.map Mb.count = [2] :=
  ⟨reachable_smallAlloc, by decide +kernel, by decide +kernel, by decide +kernel, by decide +kernel⟩

end Wm8850.MemBlock
