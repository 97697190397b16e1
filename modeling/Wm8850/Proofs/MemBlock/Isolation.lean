import Wm8850.Proofs.MemBlock.Runs

/-! # Whose holds a task can release

`mbFindMbu_eq` states the walk of `mb_find_mbu` as one search in the users of the blocks whose
address fits. The code does not test all conditions of its comment (`MbuFind.Conforms`): it takes
`MB_DEF_TGID` for any task, returns the creator when any user passes, and does not compare the
address of a get in a search by a kernel address. `MbuFind.Unchecked` is exactly what is missing. -/

namespace Wm8850.MemBlock

open Lib List Option

variable {addr : Nat} {tgid : Int} {m : Mb} {v u : MbUser} {h : Mbah} {st : MbuFind}

/-! ### The walk as one search -/

def MbuFind.passes (st : MbuFind) (addr : Nat) (tgid : Int) (mbu : MbUser) : Bool :=
  (decide (mbu.tgid = tgid) || decide (tgid = mbDefTgid)) &&
    (!st.user || decide (addr = mbu.addr)) &&
    (st.all || st.creator || (st.mmap && decide (mbu.size ≠ 0)) ||
      (st.getput && decide (mbu.addr ≠ 0) && decide (mbu.size = 0)))

/-- The blocks that `mb_find_mbu` looks at. -/
def Mbah.mbsAt (h : Mbah) (addr : Nat) (st : MbuFind) : List Mb :=
  if addr = 0 ∨ st.addrmask = false then []
  else
    (h.mbaList.filter fun a => !st.skipsMba addr a).flatMap fun a =>
      a.mbList.filter fun m => !st.skipsMb addr m

/-- The first user that passes the tests of `mb_find_mbu`. -/
def Mbah.firstMatch (h : Mbah) (addr : Nat) (tgid : Int) (st : MbuFind) : Option (Mb × MbUser) :=
  ((h.mbsAt addr st).flatMap fun m => m.mbuList.map (Prod.mk m)).find? fun p =>
    st.passes addr tgid p.2

def MbuFind.result (st : MbuFind) (mb : Mb) (mbu : MbUser) : Option MbUser :=
  if !st.all && st.creator then mb.creatorMbu else some mbu

lemma MbuFind.visit_eq (st : MbuFind) (addr : Nat) (tgid : Int) (mb : Mb) (mbu : MbUser) :
    st.visit addr tgid mb mbu
      = if st.passes addr tgid mbu then some (st.result mb mbu) else none := by
  unfold MbuFind.visit
  by_cases htgid : mbu.tgid ≠ tgid ∧ tgid ≠ mbDefTgid
  · have hno : st.passes addr tgid mbu = false := by simp [MbuFind.passes, htgid]
    rw [if_pos htgid, hno]
    rfl
  have htgid' : (decide (mbu.tgid = tgid) || decide (tgid = mbDefTgid)) = true := by
    rw [Bool.or_eq_true, decide_eq_true_eq, decide_eq_true_eq]
    tauto
  rw [if_neg htgid]
  by_cases huser : st.user = true ∧ addr ≠ mbu.addr
  · have hno : st.passes addr tgid mbu = false := by simp [MbuFind.passes, huser]
    rw [if_pos huser, hno]
    rfl
  have huser' : (!st.user || decide (addr = mbu.addr)) = true := by
    rw [Bool.or_eq_true, Bool.not_eq_true', decide_eq_true_eq, ← Bool.not_eq_true]
    tauto
  rw [if_neg huser, MbuFind.passes, htgid', huser', MbuFind.result]
  -- What is left is the choice by the type of the search.
  cases st.all with
  | true => simp
  | false =>
    cases st.creator with
    | true => simp
    | false =>
      by_cases hmmap : st.mmap = true ∧ mbu.size ≠ 0
      · simp [hmmap]
      by_cases hget : st.getput = true ∧ mbu.addr ≠ 0 ∧ mbu.size = 0
      · simp [hget]
      simp only [Bool.false_eq_true, if_false, if_neg hmmap, if_neg hget]
      rw [if_neg]
      simp only [Bool.and_eq_true, Bool.or_eq_true, decide_eq_true_eq]
      tauto

lemma findSome?_filter_flatMap {α β γ : Type} (l : List α) (skip : α → Bool) (g : α → List β)
    (f : β → Option γ) (k : α → Option γ) (hk : ∀ a ∈ l, k a = (g a).findSome? f) :
    (l.findSome? fun a => if skip a then none else k a)
      = ((l.filter fun a => !skip a).flatMap g).findSome? f := by
  induction l with
  | nil => rfl
  | cons a l ih =>
    have hrec := ih fun b hb => hk b (by simp [hb])
    rw [findSome?_cons, hrec]
    cases hs : skip a with
    | true => simp [hs]
    | false =>
      rw [filter_cons_of_pos (by simp [hs]), flatMap_cons, findSome?_append, ← hk a (by simp)]
      cases k a <;> simp

lemma findSome?_ite {α β : Type} (l : List α) (p : α → Bool) (f : α → β) :
    (l.findSome? fun a => if p a then some (f a) else none) = (l.find? p).map f := by
  induction l with
  | nil => rfl
  | cons a l ih =>
    rw [findSome?_cons, find?_cons]
    cases hp : p a with
    | true => simp
    | false => simpa using ih

lemma mbFindMbu_eq (h : Mbah) (addr : Nat) (tgid : Int) (st : MbuFind) : mbFindMbu h addr tgid st
      = (h.firstMatch addr tgid st).bind fun p => st.result p.1 p.2 := by
  unfold mbFindMbu Mbah.firstMatch Mbah.mbsAt
  split
  · rfl
  have husers : ∀ m : Mb, (m.mbuList.findSome? fun mbu => st.visit addr tgid m mbu)
      = (m.mbuList.map (Prod.mk m)).findSome? fun p =>
          if st.passes addr tgid p.2 then some (st.result p.1 p.2) else none := by
    intro m
    rw [findSome?_map]
    simp [MbuFind.visit_eq, Function.comp_def]
  have hblocks : ∀ a : Mba,
      (a.mbList.findSome? fun m => if st.skipsMb addr m then none
        else m.mbuList.findSome? fun mbu => st.visit addr tgid m mbu)
      = ((a.mbList.filter fun m => !st.skipsMb addr m).flatMap fun m =>
          m.mbuList.map (Prod.mk m)).findSome? fun p =>
            if st.passes addr tgid p.2 then some (st.result p.1 p.2) else none := by
    intro a
    exact findSome?_filter_flatMap _ _ _ _ _ fun m _ => husers m
  rw [findSome?_filter_flatMap _ _ _ _ _ fun a _ => hblocks a, findSome?_ite, flatMap_assoc]
  cases find? _ _ <;> rfl

lemma Mbah.mbsAt_sublist (h : Mbah) (addr : Nat) (st : MbuFind) :
    (h.mbsAt addr st).Sublist h.mbs := by
  unfold Mbah.mbsAt Mbah.mbs
  split
  · exact nil_sublist _
  · exact (filter_sublist.flatMap _).trans
      (List.Sublist.flatMap_right h.mbaList fun a _ => filter_sublist)

lemma Mbah.firstMatch_some (hf : h.firstMatch addr tgid st = some (m, v)) :
    m ∈ h.mbs ∧ v ∈ m.mbuList ∧ st.passes addr tgid v = true := by
  have hmem := mem_of_find?_eq_some hf
  have hpass := find?_some hf
  obtain ⟨m', hm', hmem⟩ := mem_flatMap.mp hmem
  obtain ⟨v', hv', heq⟩ := mem_map.mp hmem
  cases heq
  exact ⟨(h.mbsAt_sublist addr st).subset hm', hv', hpass⟩

/-! ### A physical address names one block -/

lemma Mbah.Layout.frames_lt (hg : h.Layout) (hm : m ∈ h.mbs) : m.pfnStart < m.pfnEnd := by
  obtain ⟨a, ha, hm⟩ := mem_flatMap.mp hm
  exact ((hg.areas.layout a ha).packed.mem_bounds hm).2.1

lemma Mbah.Layout.frames_apart (hg : h.Layout) :
    h.mbs.Pairwise fun x y => Apart (x.pfnStart, x.pfnEnd) (y.pfnStart, y.pfnEnd) := by
  unfold Mbah.mbs
  rw [pairwise_flatMap]
  constructor
  · intro a ha
    exact (hg.areas.layout a ha).packed.pairwise.imp fun hxy => .inl hxy
  have hap := hg.areas.apart
  rw [pairwise_map] at hap
  refine hap.imp_of_mem fun {a b} ha hb hab x hx y hy => ?_
  have hbx := (hg.areas.layout a ha).packed.mem_bounds hx
  have hby := (hg.areas.layout b hb).packed.mem_bounds hy
  rcases hab with hab | hab
  · have hle : a.pfnEnd ≤ b.pfnStart := hab
    exact .inl (by omega)
  · have hle : b.pfnEnd ≤ a.pfnStart := hab
    exact .inr (by omega)

lemma Mbah.Layout.nodup_pfnStart (hg : h.Layout) : (h.mbs.map Mb.pfnStart).Nodup := by
  show (h.mbs.map Mb.pfnStart).Pairwise (· ≠ ·)
  rw [pairwise_map]
  refine hg.frames_apart.imp_of_mem fun {x y} hx hy hxy => ?_
  have hltx := hg.frames_lt hx
  have hlty := hg.frames_lt hy
  simp only [Apart] at hxy
  omega

lemma Mbah.Layout.phys_unique (hg : h.Layout) {b : Mb} (hm : m ∈ h.mbs)
    (hb : b ∈ h.mbs) (heq : m.phys = b.phys) : m = b := by
  have hframe : ∀ x ∈ h.mbs, x.phys = x.pfnStart * pageSize := by
    intro x hx
    obtain ⟨a, ha, hx⟩ := mem_flatMap.mp hx
    exact ((hg.areas.layout a ha).placed x hx).1
  rw [hframe m hm, hframe b hb] at heq
  exact inj_on_of_nodup_map hg.nodup_pfnStart hm hb (Nat.eq_of_mul_eq_mul_right (by decide) heq)

lemma phys_of_mem_mbsAt (hst : st.phys = true) (hm : m ∈ h.mbsAt addr st) : m.phys = addr := by
  unfold Mbah.mbsAt at hm
  split at hm
  · exact absurd hm not_mem_nil
  obtain ⟨a, -, hm⟩ := mem_flatMap.mp hm
  have htest := (mem_filter.mp hm).2
  simp only [MbuFind.skipsMb, hst, Bool.true_and, Bool.not_eq_true', Bool.or_eq_false_iff,
    bne_eq_false_iff_eq] at htest
  exact htest.1.symm

lemma Mbah.Layout.mbsAt_phys (hg : h.Layout) (hst : st.phys = true) :
    h.mbsAt addr st = [] ∨ ∃ m ∈ h.mbs, h.mbsAt addr st = [m] := by
  have hsub := h.mbsAt_sublist addr st
  have haddr : ∀ m ∈ h.mbsAt addr st, m.phys = addr := fun m hm => phys_of_mem_mbsAt hst hm
  have hnd : (h.mbsAt addr st).Nodup := hsub.nodup (hg.nodup_pfnStart.of_map Mb.pfnStart)
  cases hl : h.mbsAt addr st with
  | nil => exact .inl rfl
  | cons m l =>
    rw [hl] at hsub haddr hnd
    have hm := hsub.subset mem_cons_self
    refine .inr ⟨m, hm, ?_⟩
    -- A second entry would be the same block.
    cases l with
    | nil => rfl
    | cons b l =>
      have hb : b ∈ m :: b :: l := by simp
      have hmb := hg.phys_unique hm (hsub.subset hb)
        ((haddr m mem_cons_self).trans (haddr b hb).symm)
      exact absurd (hmb ▸ mem_cons_self) (nodup_cons.mp hnd).1

lemma Mbah.Layout.firstMatch_phys (hg : h.Layout) (hst : st.phys = true) :
    h.firstMatch addr tgid st = some (m, v) ↔
      m ∈ h.mbsAt addr st ∧ m.mbuList.find? (st.passes addr tgid) = some v := by
  unfold Mbah.firstMatch
  rcases hg.mbsAt_phys hst with hnil | ⟨b, -, hone⟩
  · rw [hnil]
    simp
  rw [hone, flatMap_singleton, find?_map, mem_singleton, map_eq_some_iff]
  constructor
  · rintro ⟨v', hv', heq⟩
    cases heq
    exact ⟨rfl, hv'⟩
  · rintro ⟨rfl, hv⟩
    exact ⟨v, hv, rfl⟩

/-! ### What the comment promises -/

/-- The conditions that the comment of `mb_find_mbu` lists for its result `mbu`, a user of the
block `mb`. -/
def MbuFind.Conforms (st : MbuFind) (addr : Nat) (tgid : Int) (mb : Mb) (mbu : MbUser) : Prop :=
  mbu.tgid = tgid ∧
    if st.all then True
    else if st.creator then mb.creator = some mbu.ptr ∧ mbu.size = mb.size
    else (st.mmap = true ∧ mbu.size ≠ 0) ∨
      (st.getput = true ∧ mbu.size = 0 ∧ mbu.addr = addr)

/-- The part of these conditions that the walk does not test before it stops at the user
`mbu` of the block `mb`. -/
def MbuFind.Unchecked (st : MbuFind) (addr : Nat) (tgid : Int) (mb : Mb) (mbu : MbUser) : Prop :=
  if !st.all && st.creator then ∀ c, mb.creatorMbu = some c → c.tgid = tgid
  else (tgid = mbDefTgid → mbu.tgid = mbDefTgid) ∧
    (st.all = false → mbu.size = 0 → st.user = false → mbu.addr = addr)

lemma MbuFind.result_mem (hv : v ∈ m.mbuList) (hu : st.result m v = some u) : u ∈ m.mbuList := by
  unfold MbuFind.result at hu
  split at hu
  · exact (Mb.creatorMbu_some hu).1
  · cases hu
    exact hv

lemma MbuFind.conforms_iff (hw : h.Wf) (hf : h.firstMatch addr tgid st = some (m, v)) :
    (∀ u, st.result m v = some u → st.Conforms addr tgid m u) ↔ st.Unchecked addr tgid m v := by
  obtain ⟨hm, hv, hpass⟩ := Mbah.firstMatch_some hf
  unfold MbuFind.result MbuFind.Unchecked MbuFind.Conforms
  by_cases hcr : (!st.all && st.creator) = true
  · rw [Bool.and_eq_true, Bool.not_eq_true'] at hcr
    simp only [hcr.1, hcr.2]
    refine ⟨fun hall c hc => (hall c hc).1, fun hall u hu => ⟨hall u hu, ?_⟩⟩
    have hok := hw.linked.blocks.ok m hm
    obtain ⟨hmem, hptr⟩ := Mb.creatorMbu_some hu
    obtain ⟨c, hc, hcp, -, hsize⟩ := hok.creator u.ptr hptr
    rw [hw.linked.mbu_unique hm hc hmem hcp] at hsize
    exact ⟨hptr, hsize⟩
  simp only [if_neg hcr]
  -- The walk tested the task, unless it stands for any task.
  have htgid : v.tgid = tgid ↔ (tgid = mbDefTgid → v.tgid = mbDefTgid) := by
    have hp := hpass
    simp only [MbuFind.passes, Bool.and_eq_true, Bool.or_eq_true, decide_eq_true_eq] at hp
    constructor
    · intro heq hdef
      rw [heq, hdef]
    · intro himp
      rcases hp.1.1 with heq | hdef
      · exact heq
      · rw [himp hdef, hdef]
  have hone : (∀ u, some v = some u → st.Conforms addr tgid m u) ↔ st.Conforms addr tgid m v :=
    ⟨fun hall => hall v rfl, fun hc u hu => by rw [← Option.some.inj hu]; exact hc⟩
  show (∀ u, some v = some u → st.Conforms addr tgid m u) ↔ _
  rw [hone, MbuFind.Conforms, htgid]
  refine and_congr_right fun _ => ?_
  cases hall : st.all with
  | true => simp
  | false =>
    have hcreator : st.creator = false := by
      simpa [hall] using hcr
    simp only [MbuFind.passes, hall, hcreator, Bool.and_eq_true, Bool.or_eq_true,
      decide_eq_true_eq, Bool.not_eq_true', Bool.false_eq_true, false_or] at hpass
    simp only [hcreator, forall_const]
    constructor
    · rintro (⟨-, hne⟩ | ⟨-, -, haddr⟩) hzero huser
      · exact absurd hzero hne
      · exact haddr
    intro himp
    rcases hpass.2 with hmap | hget
    · exact .inl hmap
    · refine .inr ⟨hget.1.1, hget.2, ?_⟩
      rcases hpass.1.2 with huser | haddr
      · exact himp hget.2 huser
      · exact haddr.symm

/-! ### What is released -/

lemma dropUser_keeps_iff (hw : h.Wf) (hm : m ∈ h.mbs) (hu : u ∈ m.mbuList)
    {g : Option Ptr → Option Ptr}
    (hg : g m.creator = none ∨ (g m.creator = m.creator ∧ m.creator ≠ some u.ptr)) (tgid : Int) :
    (∀ v ∈ h.mbus, v.tgid ≠ tgid → v ∈ (h.dropUser m (Mb.unlinkUser u.ptr g)).mbus) ↔
      u.tgid = tgid := by
  constructor
  · intro hkeep
    by_contra hne
    have hmem : u ∈ h.mbus := mem_flatMap.mpr ⟨m, hm, hu⟩
    exact ((mem_mbus_dropUser hw hm hu hg).mp (hkeep u hmem hne)).2 rfl
  · intro heq v hv hne
    exact (mem_mbus_dropUser hw hm hu hg).mpr ⟨hv, fun hvu => hne (by rw [hvu]; exact heq)⟩

lemma mbDoFree_of_find {name : Name}
    (hf : mbFindMbu h addr tgid { phys := true, creator := true } = some u)
    (hm : h.mb? u.mb = some m) :
    (mbDoFree h addr tgid (some name)).1 = h.dropUser m (Mb.unlinkUser u.ptr fun _ => none) := by
  have haddr := (mbFindMbu_visit hf).1
  unfold mbDoFree Mbah.dropUser
  rw [if_neg (by simp [haddr])]
  simp only [hf, hm]
  split <;> rfl

lemma putMbu_of_find (hm : h.mb? u.mb = some m) (hc : m.count ≠ 0) :
    (putMbu h (some u)).1 = h.dropUser m (Mb.unlinkUser u.ptr id) := by
  unfold putMbu Mbah.dropUser
  simp only [hm, if_neg hc]
  by_cases h1 : m.count - 1 = 0
  · rw [if_pos h1, if_neg (by omega)]
    rfl
  · rw [if_neg h1, if_pos (by omega)]
    rfl

/-- `mb_do_free` keeps the holds of other tasks exactly when the creator is one of the task, or no
user lets the search stop. -/
theorem mbDoFree_keeps_iff (hw : h.Wf) (addr : Nat) (tgid : Int) (name : Option Name) :
    (∀ u ∈ h.mbus, u.tgid ≠ tgid → u ∈ (mbDoFree h addr tgid name).1.mbus) ↔
      name = none ∨ ∀ m ∈ h.mbsAt addr { phys := true },
        (∃ v ∈ m.mbuList, v.tgid = tgid ∨ tgid = mbDefTgid) →
        ∀ c, m.creatorMbu = some c → c.tgid = tgid := by
  cases name with
  | none =>
    have hself : (mbDoFree h addr tgid none).1 = h := by simp [mbDoFree]
    rw [hself]
    exact iff_of_true (fun u hu _ => hu) (.inl rfl)
  | some name =>
    simp only [reduceCtorEq, false_or]
    constructor
    · -- The creator is found, and it is the user that goes.
      rintro hkeep m hm ⟨v, hv, htgid⟩ c hc
      have hpass :
          (m.mbuList.find? (MbuFind.passes { phys := true, creator := true } addr
          tgid)).isSome := by
        rw [find?_isSome]
        exact ⟨v, hv, by simpa [MbuFind.passes] using htgid⟩
      obtain ⟨v', hv'⟩ := isSome_iff_exists.mp hpass
      have hfirst : h.firstMatch addr tgid { phys := true, creator := true } = some (m, v') :=
        (hw.layout.firstMatch_phys rfl).mpr ⟨hm, hv'⟩
      have hf : mbFindMbu h addr tgid { phys := true, creator := true } = some c := by
        rw [mbFindMbu_eq, hfirst]
        simp [MbuFind.result, hc]
      have hmem := (h.mbsAt_sublist _ _).subset hm
      have hu := (Mb.creatorMbu_some hc).1
      rw [mbDoFree_of_find hf (hw.linked.find_owner hmem hu)] at hkeep
      exact (dropUser_keeps_iff hw hmem hu (.inl rfl) tgid).mp hkeep
    intro hcond
    cases hf : mbFindMbu h addr tgid { phys := true, creator := true } with
    | none =>
      have hself : (mbDoFree h addr tgid (some name)).1 = h := by
        unfold mbDoFree
        rw [hf]
        split <;> rfl
      rw [hself]
      exact fun u hu _ => hu
    | some c =>
      rw [mbFindMbu_eq] at hf
      obtain ⟨⟨m, v⟩, hfirst, hc⟩ := bind_eq_some_iff.mp hf
      have hc' : m.creatorMbu = some c := by simpa [MbuFind.result] using hc
      obtain ⟨hmem, hv, hpass⟩ := Mbah.firstMatch_some hfirst
      have htgid := hcond m ((hw.layout.firstMatch_phys rfl).mp hfirst).1
        ⟨v, hv, by simpa [MbuFind.passes] using hpass⟩ c hc'
      have hu := (Mb.creatorMbu_some hc').1
      rw [← mbFindMbu_eq] at hf
      rw [mbDoFree_of_find hf (hw.linked.find_owner hmem hu)]
      exact (dropUser_keeps_iff hw hmem hu (.inl rfl) tgid).mpr htgid

lemma putMbu_keeps_iff (hw : h.Wf) (hall : st.all = false)
    (hcreator : st.creator = false) (hmmap : st.mmap = false) :
    (∀ u ∈ h.mbus, u.tgid ≠ tgid → u ∈ (putMbu h (mbFindMbu h addr tgid st)).1.mbus) ↔
      ∀ m v, h.firstMatch addr tgid st = some (m, v) → v.tgid = tgid := by
  have heq := mbFindMbu_eq h addr tgid st
  cases hfirst : h.firstMatch addr tgid st with
  | none =>
    rw [hfirst] at heq
    rw [heq]
    exact iff_of_true (fun u hu _ => hu) fun m v hmv => by simp at hmv
  | some p =>
    obtain ⟨m, v⟩ := p
    have hf : mbFindMbu h addr tgid st = some v := by
      rw [heq, hfirst]
      simp [MbuFind.result, hcreator]
    obtain ⟨hm, hv, -⟩ := Mbah.firstMatch_some hfirst
    obtain ⟨m', hm', hv', haddr⟩ := mbFindMbu_mem hf hall hcreator (by rw [hmmap]; simp)
    have hown := hw.linked.find_owner hm hv
    have hcount : m.count ≠ 0 := by
      have hpos := length_pos_of_mem hv
      rw [(hw.linked.blocks.ok m hm).count]
      omega
    have hne : m.creator ≠ some v.ptr := hw.linked.ne_creator hm hv haddr
    rw [hf, putMbu_of_find hown hcount, dropUser_keeps_iff hw hm hv (.inr ⟨rfl, hne⟩)]
    constructor
    · intro htgid m' v' hmv
      cases hmv
      exact htgid
    · intro hcond
      exact hcond m v rfl

/-- The kernel's own call takes the first get of the block at the address, of whatever task. -/
theorem mbDoPut_keeps_iff (hw : h.Wf) (addr : Nat) (tgid : Int) (name : Option Name) :
    (∀ u ∈ h.mbus, u.tgid ≠ tgid → u ∈ (mbDoPut h addr tgid name).1.mbus) ↔
      name = none ∨ tgid ≠ mbDefTgid ∨ ∀ m ∈ h.mbsAt addr { phys := true },
        ∀ v, (m.mbuList.find? fun v => decide (v.addr ≠ 0) && decide (v.size = 0)) = some v →
        v.tgid = mbDefTgid := by
  by_cases hbad : addr = 0 ∨ name = none
  · have hself : (mbDoPut h addr tgid name).1 = h := by
      unfold mbDoPut
      rw [if_pos hbad]
    rw [hself]
    refine iff_of_true (fun u hu _ => hu) ?_
    rcases hbad with haddr | hname
    · refine .inr (.inr fun m hm => ?_)
      simp [Mbah.mbsAt, haddr] at hm
    · exact .inl hname
  unfold mbDoPut
  rw [if_neg hbad]
  have hname : name ≠ none := fun hn => hbad (.inr hn)
  by_cases hdef : tgid = mbDefTgid
  · subst hdef
    rw [if_pos rfl, putMbu_keeps_iff hw rfl rfl rfl]
    simp only [hname, false_or, ne_eq, not_true_eq_false]
    -- With `MB_DEF_TGID` the tests on a user are those for a get.
    have htests : MbuFind.passes { phys := true, getput := true } addr mbDefTgid
        = fun v => decide (v.addr ≠ 0) && decide (v.size = 0) := by
      funext v
      simp [MbuFind.passes]
    rw [← htests]
    constructor
    · intro hall m hm v hv
      exact hall m v ((hw.layout.firstMatch_phys rfl).mpr ⟨hm, hv⟩)
    · intro hall m v hmv
      obtain ⟨hm, hv⟩ := (hw.layout.firstMatch_phys rfl).mp hmv
      exact hall m hm v hv
  rw [if_neg hdef, putMbu_keeps_iff hw rfl rfl rfl]
  refine iff_of_true (fun m v hmv => ?_) (.inr (.inl hdef))
  have hpass := (Mbah.firstMatch_some hmv).2.2
  simp only [MbuFind.passes, Bool.and_eq_true, Bool.or_eq_true, decide_eq_true_eq] at hpass
  exact hpass.1.1.resolve_right hdef

/-- The user that `mb_find_mbu` returns satisfies the conditions in its comment exactly when the
first user that passes the tests of the code also passes those that the code leaves out. The other
two parts are what follows for `mb_do_free` and `mb_do_put`. -/
theorem mbFindMbu_conforms_iff {h : Mbah} (hw : h.Wf) (addr : Nat) (tgid : Int) : (∀ st : MbuFind,
      (∀ u m, mbFindMbu h addr tgid st = some u → h.mb? u.mb = some m → st.Conforms addr tgid m u) ↔
      ∀ m v, h.firstMatch addr tgid st = some (m, v) → st.Unchecked addr tgid m v) ∧
    (∀ name : Option Name, (∀ u ∈ h.mbus, u.tgid ≠ tgid → u ∈ (mbDoFree h addr tgid name).1.mbus) ↔
      name = none ∨ ∀ m ∈ h.mbsAt addr { phys := true },
        (∃ v ∈ m.mbuList, v.tgid = tgid ∨ tgid = mbDefTgid) →
        ∀ c, m.creatorMbu = some c → c.tgid = tgid) ∧ (∀ name : Option Name,
      (∀ u ∈ h.mbus, u.tgid ≠ tgid → u ∈ (mbDoPut h addr tgid name).1.mbus) ↔
      name = none ∨ tgid ≠ mbDefTgid ∨ ∀ m ∈ h.mbsAt addr { phys := true },
        ∀ v, (m.mbuList.find? fun v => decide (v.addr ≠ 0) && decide (v.size = 0)) = some v →
        v.tgid = mbDefTgid) := by
  refine ⟨fun st => ?_, mbDoFree_keeps_iff hw addr tgid, mbDoPut_keeps_iff hw addr tgid⟩
  have heq := mbFindMbu_eq h addr tgid st
  constructor
  · intro hall m v hfirst
    rw [← MbuFind.conforms_iff hw hfirst]
    intro u hu
    obtain ⟨hm, hv, -⟩ := Mbah.firstMatch_some hfirst
    rw [hfirst] at heq
    exact hall u m (heq.trans hu) (hw.linked.find_owner hm (MbuFind.result_mem hv hu))
  intro hall u m' hf hm'
  rw [heq] at hf
  obtain ⟨⟨m, v⟩, hfirst, hu⟩ := bind_eq_some_iff.mp hf
  obtain ⟨hm, hv, -⟩ := Mbah.firstMatch_some hfirst
  rw [hw.linked.find_owner hm (MbuFind.result_mem hv hu)] at hm'
  cases hm'
  exact (MbuFind.conforms_iff hw hfirst).mpr (hall _ v hfirst) u hu

/-- The first task frees its block, which the second has mapped. The mapping stays. -/
theorem smallShared_free_own : smallShared.mbah.mbus.map MbUser.tgid = [7, 8] ∧
    (mbDoFree smallShared.mbah 0x100000 7 (some ['v'])).2 = 0 ∧
    ∀ u ∈ smallShared.mbah.mbus, u.tgid ≠ 7 →
      u ∈ (mbDoFree smallShared.mbah 0x100000 7 (some ['v'])).1.mbus := by
  refine ⟨by decide +kernel, by decide +kernel, ?_⟩
  refine ((mbFindMbu_conforms_iff (reachable_wf reachable_smallShared) 0x100000 7).2.1
    (some ['v'])).mpr (.inr fun m hm _ c hc => ?_)
  have hall : (smallShared.mbah.mbsAt 0x100000 { phys := true }).all
      (fun m => m.creatorMbu.all fun c => decide (c.tgid = 7)) = true := by
    decide +kernel
  have hm' := all_eq_true.mp hall m hm
  rw [hc] at hm'
  exact of_decide_eq_true hm'

/-- The second task frees the block: `mb_find_mbu` returns the creator, a hold of the first
task, and `mb_do_free` releases it. -/
theorem smallShared_foreign_free : Reachable smallConfig smallShared ∧
    (mbFindMbu smallShared.mbah 0x100000 8 { phys := true, creator := true }).map MbUser.tgid
      = some 7 ∧ smallShared.mbah.mbus.map MbUser.tgid = [7, 8] ∧
    (mbDoFree smallShared.mbah 0x100000 8 (some ['w'])).1.mbus.map MbUser.tgid = [8] ∧
    (mbDoFree smallShared.mbah 0x100000 8 (some ['w'])).2 = 0 := by
  exact ⟨reachable_smallShared, by decide +kernel, by decide +kernel, by decide +kernel,
    by decide +kernel⟩

end Wm8850.MemBlock
