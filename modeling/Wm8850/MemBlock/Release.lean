import Mathlib.Algebra.Order.BigOperators.Group.List
import Mathlib.Algebra.Order.Ring.Nat
import Wm8850.MemBlock.Driver
import Wm8850.Lib.Reach

/-! # Closing the device

`mb_release` of the last open file of a task drops the users of the task from all blocks. A block
whose count reaches zero is recycled, and the walk starts over (`goto RESCAN_MBA`), because
recycling may have unlinked the area. `rescanMbu`, `scanMbs` and `scanMbas` are the nested walks,
`releaseLoop` the loop of them. Each turn drops a user or unlinks an area (`Mbah.work`). -/

namespace Wm8850.MemBlock

open Lib List Option Bool

/-- The loop at `RESCAN_MBU` of `mb_release`. The flag is set when the count reached zero. -/
def rescanMbu (tgid : Int) (mb : Mb) : Mb × Bool :=
  match _h : mb.mbuList.find? fun mbu => decide (mbu.tgid = tgid) with
  | none => (mb, false)
  | some mbu =>
    let mb' : Mb :=
      { mb.delUser mbu.ptr with
        creator := if mb.creator = some mbu.ptr then none else mb.creator }
    if mb'.count ≠ 0 then rescanMbu tgid mb' else (mb', true)
termination_by mb.mbuList.length
decreasing_by
  have := length_eraseKey_of_mem MbUser.ptr (mem_of_find?_eq_some _h)
  simp only [Mb.delUser]
  omega

/-- The walk over the blocks of an area, up to the first block that lost its last user. -/
def scanMbs (tgid : Int) : List Mb → List Mb × Option Ptr
  | [] => ([], none)
  | mb :: rest =>
    match rescanMbu tgid mb with
    | (mb', true) => (mb' :: rest, some mb'.ptr)
    | (mb', false) =>
      let (rest', found) := scanMbs tgid rest
      (mb' :: rest', found)

/-- Why the walk over the areas is left: a block to recycle, or a prefetched area that is
empty. -/
inductive Rescan where
  | mb (p : Ptr)
  | mba (a : Mba)
deriving Repr, DecidableEq

def Mba.clearMark (marked : Bool) (mba : Mba) : Mba :=
  if marked then { mba with isStatic := false, tgid := mbDefTgid } else mba

variable {h : Mbah}

@[simp] lemma Mba.clearMark_mbList (marked : Bool) (mba : Mba) :
    (mba.clearMark marked).mbList = mba.mbList := by
  cases marked <;> rfl

/-- The walk over the areas, up to the first `goto RESCAN_MBA`. The second component is
`tot_static_pages`. -/
def scanMbas (cfg : Config) (tgid : Int) : List Mba → Nat → List Mba × Nat × Option Rescan
  | [], tot => ([], tot, none)
  | mba :: rest, tot =>
    let marked := cfg.dynamicAllocate && decide (mba.tgid = tgid)
    let mba' := mba.clearMark marked
    let tot' := if marked then wsub tot mba.pages else tot
    if marked ∧ mba.nrMb = 0 then (mba' :: rest, tot', some (.mba mba'))
    else
      match scanMbs tgid mba'.mbList with
      | (mbs, some p) => ({ mba' with mbList := mbs } :: rest, tot', some (.mb p))
      | (mbs, none) =>
        let (rest', tot'', found) := scanMbas cfg tgid rest tot'
        ({ mba' with mbList := mbs } :: rest', tot'', found)

def Mbah.scanned (cfg : Config) (tgid : Int) (h : Mbah) : Mbah :=
  let (mbaList, tot, _) := scanMbas cfg tgid h.mbaList h.totStaticPages
  { h with mbaList := mbaList, totStaticPages := tot }

def Mbah.rescan (cfg : Config) (tgid : Int) (h : Mbah) : Option Rescan :=
  (scanMbas cfg tgid h.mbaList h.totStaticPages).2.2

def Mbah.recycle (h : Mbah) : Rescan → Mbah
  | .mb p => (mbFreeMb h p).1
  | .mba a => (mbFreeMba h a).1

/-! ### Termination -/

def userCount (l : List Mb) : Nat := (l.map fun mb => mb.mbuList.length).sum

def Mbah.work (h : Mbah) : Nat :=
  (h.mbaList.map fun a => userCount a.mbList).sum + h.mbaList.length

lemma length_rescanMbu (tgid : Int) (mb : Mb) :
    (rescanMbu tgid mb).1.mbuList.length + (rescanMbu tgid mb).2.toNat ≤ mb.mbuList.length := by
  fun_induction rescanMbu tgid mb with
  | case1 mb h => simp
  | case2 mb mbu h mb' hne ih =>
    have := length_eraseKey_of_mem MbUser.ptr (mem_of_find?_eq_some h)
    simp only [mb', Mb.delUser] at ih ⊢
    omega
  | case3 mb mbu h mb' hne =>
    have := length_eraseKey_of_mem MbUser.ptr (mem_of_find?_eq_some h)
    simp only [mb', Mb.delUser, toNat_true]
    omega

lemma userCount_scanMbs (tgid : Int) (l : List Mb) :
    userCount (scanMbs tgid l).1 + (scanMbs tgid l).2.isSome.toNat ≤ userCount l := by
  induction l with
  | nil => simp [scanMbs]
  | cons mb rest ih =>
    have hmb := length_rescanMbu tgid mb
    unfold scanMbs
    cases hr : rescanMbu tgid mb with
    | mk mb' flag =>
      rw [hr] at hmb
      cases flag with
      | true =>
        simp only [userCount, map_cons, sum_cons, isSome_some] at hmb ⊢
        omega
      | false =>
        simp only [userCount, map_cons, sum_cons] at ih hmb ⊢
        omega

lemma scanMbas_work (cfg : Config) (tgid : Int) (l : List Mba) (tot : Nat) :
    (scanMbas cfg tgid l tot).1.length = l.length ∧
    ((scanMbas cfg tgid l tot).1.map fun a => userCount a.mbList).sum ≤
      (l.map fun a => userCount a.mbList).sum ∧
    (∀ p, (scanMbas cfg tgid l tot).2.2 = some (.mb p) →
      ((scanMbas cfg tgid l tot).1.map fun a => userCount a.mbList).sum
        < (l.map fun a => userCount a.mbList).sum) ∧
          (∀ a, (scanMbas cfg tgid l tot).2.2 = some (.mba a) →
      a ∈ (scanMbas cfg tgid l tot).1 ∧ a.nrMb = 0 ∧ a.isStatic = false) := by
  induction l generalizing tot with
  | nil => simp [scanMbas]
  | cons mba rest ih =>
    unfold scanMbas
    generalize hm : (cfg.dynamicAllocate && decide (mba.tgid = tgid)) = marked
    by_cases hfree : marked = true ∧ mba.nrMb = 0
    · obtain ⟨rfl, hnr⟩ := hfree
      simp [hnr, Mba.clearMark]
    simp only [hfree, if_false, Mba.clearMark_mbList]
    have hs := userCount_scanMbs tgid mba.mbList
    cases hscan : scanMbs tgid mba.mbList with
    | mk mbs found =>
      rw [hscan] at hs
      cases found with
      | some p =>
        simp only [isSome_some, toNat_true] at hs
        simp only [map_cons, sum_cons]
        exact ⟨by simp, by omega, fun _ _ => by omega, fun a h => by simp at h⟩
      | none =>
        simp only [isSome_none] at hs
        obtain ⟨hlen, hsum, hlt, hmba⟩ :=
          ih (if marked = true then wsub tot mba.pages else tot)
        simp only [map_cons, sum_cons]
        refine ⟨by simp [hlen], by omega, fun p h => ?_, fun a h => ?_⟩
        · have := hlt p h
          omega
        · obtain ⟨ha, hrest⟩ := hmba a h
          exact ⟨by simp [ha], hrest⟩

lemma work_mbFreeMba_le (h : Mbah) (a : Mba) : (mbFreeMba h a).1.work ≤ h.work := by
  unfold mbFreeMba
  split
  · exact Nat.le_refl _
  split
  · exact Nat.le_refl _
  split
  · exact Nat.le_refl _
  have hsub := eraseKey_sublist Mba.ptr a.ptr h.mbaList
  have hsum := (hsub.map fun a => userCount a.mbList).sum_le_sum fun _ _ => Nat.zero_le _
  have hlen := hsub.length_le
  simp only [Mbah.work]
  omega

lemma work_mbFreeMba_lt {a : Mba} (ha : a ∈ h.mbaList) (hnr : a.nrMb = 0)
    (hst : a.isStatic = false) : (mbFreeMba h a).1.work < h.work := by
  have hfound : (h.mba? a.ptr).isNone = false := by
    cases hf : h.mba? a.ptr with
    | none => exact absurd rfl (findKey_eq_none.mp hf a ha)
    | some b => rfl
  have hsub := eraseKey_sublist Mba.ptr a.ptr h.mbaList
  have hsum := (hsub.map fun a => userCount a.mbList).sum_le_sum fun _ _ => Nat.zero_le _
  have hlen := length_eraseKey_of_mem Mba.ptr ha
  simp only [mbFreeMba, hnr, hfound, hst, Mbah.work, ne_eq, not_true_eq_false, if_false,
    false_eq_true]
  omega

lemma work_setMba_le {a b : Mba} (hf : h.mba? b.ptr = some a)
    (hle : userCount b.mbList ≤ userCount a.mbList) : (h.setMba b).work ≤ h.work := by
  suffices hl : ∀ l : List Mba, findKey Mba.ptr b.ptr l = some a →
      ((updateKey Mba.ptr b.ptr (fun _ => b) l).map fun a => userCount a.mbList).sum
          ≤ (l.map fun a => userCount a.mbList).sum ∧
        (updateKey Mba.ptr b.ptr (fun _ => b) l).length = l.length by
    have := hl h.mbaList hf
    simp only [Mbah.work, Mbah.setMba]
    omega
  intro l
  induction l with
  | nil => simp [updateKey]
  | cons c l ih =>
    intro hc
    by_cases hk : c.ptr = b.ptr
    · have hca : c = a := by simpa [findKey, hk] using hc
      subst hca
      simp [updateKey, hk, hle]
    · have hrec := ih (by simpa [findKey, hk] using hc)
      simp only [updateKey, hk, if_false, map_cons, sum_cons, length_cons]
      omega

lemma work_mbFreeMb_le (h : Mbah) (p : Ptr) : (mbFreeMb h p).1.work ≤ h.work := by
  unfold mbFreeMb
  cases hmb : h.mb? p with
  | none => exact Nat.le_refl _
  | some mb =>
    dsimp only
    split
    · exact Nat.le_refl _
    cases hmba : h.mba? mb.mba with
    | none => exact Nat.le_refl _
    | some mba =>
      dsimp only
      split
      · exact Nat.le_refl _
      have hfound : h.mba? mba.ptr = some mba := by
        rw [(findKey_some hmba).2]
        exact hmba
      have hsub := eraseKey_sublist Mb.ptr p mba.mbList
      have hle : userCount (eraseKey Mb.ptr p mba.mbList) ≤ userCount mba.mbList :=
        (hsub.map fun mb : Mb => mb.mbuList.length).sum_le_sum fun _ _ => Nat.zero_le _
      split
      · refine Nat.le_trans (work_mbFreeMba_le _ _) (work_setMba_le (a := mba) ?_ ?_)
        · exact hfound
        · exact hle
      refine work_setMba_le (a := mba) (b := (mba.unlinkMb p).recount) ?_ ?_
      · exact hfound
      · exact hle

lemma work_recycle_lt {cfg : Config} {tgid : Int} {r : Rescan}
    (hr : h.rescan cfg tgid = some r) : ((h.scanned cfg tgid).recycle r).work < h.work := by
  obtain ⟨hlen, hle, hlt, hmba⟩ := scanMbas_work cfg tgid h.mbaList h.totStaticPages
  have hwork : (h.scanned cfg tgid).work =
      ((scanMbas cfg tgid h.mbaList h.totStaticPages).1.map fun a =>
          userCount a.mbList).sum + h.mbaList.length := by
    simp [Mbah.work, Mbah.scanned, hlen]
  cases r with
  | mb p =>
    have h1 := work_mbFreeMb_le (h.scanned cfg tgid) p
    have h2 := hlt p hr
    simp only [Mbah.recycle, Mbah.work] at h1 hwork ⊢
    omega
  | mba a =>
    obtain ⟨ha, hnr, hst⟩ := hmba a hr
    have h1 := work_mbFreeMba_lt (h := h.scanned cfg tgid) ha hnr hst
    simp only [Mbah.recycle, Mbah.work] at h1 hwork ⊢
    omega

/-! ### The release -/

def releaseLoop (cfg : Config) (tgid : Int) (h : Mbah) : Mbah :=
  match _hr : h.rescan cfg tgid with
  | none => h.scanned cfg tgid
  | some r => releaseLoop cfg tgid ((h.scanned cfg tgid).recycle r)
termination_by h.work
decreasing_by exact work_recycle_lt _hr

/-- Only the last file of the task releases its users. -/
def mbRelease (cfg : Config) (s : State) (tgid : Int) : State × Int :=
  match findKey MbTaskInfo.tgid tgid s.mbtiList with
  | none => (s, 0)
  | some mbti =>
    if mbti.count - 1 ≠ 0 then
      ({ s with mbtiList := updateKey MbTaskInfo.tgid tgid
                  (fun mbti => { mbti with count := mbti.count - 1 }) s.mbtiList }, 0)
    else
      ({ mbah := mbUpdateMbah (releaseLoop cfg tgid s.mbah)
         mbtiList := eraseKey MbTaskInfo.tgid tgid s.mbtiList }, 0)

/-! ### `mb_probe`

The loop has no result when the list of the kernel's answers ends first. -/

def Mba.combind (h t : Mba) : Mba :=
  { h with
    pfnEnd := t.pfnEnd
    pages := h.pages + t.pages
    totFreePages := h.totFreePages + t.totFreePages
    maxAvailablePages := h.maxAvailablePages + t.maxAvailablePages }

def combindMba (mbah : Mbah) (h t : Mba) : Mbah :=
  { mbah with
    mbaList := eraseKey Mba.ptr t.ptr (updateKey Mba.ptr h.ptr (fun _ => h.combind t) mbah.mbaList)
    nrMba := wsub mbah.nrMba 1 }

def probePages (cfg : Config) (h : Mbah) : Nat :=
  min (wsub (cfg.mbTotalSize * 1024) (h.totStaticPages * pageSize) / pageSize)
    (2 ^ cfg.mbmaxOrder)

/-- The new area becomes static, and is joined with the area `bind` of the turns before if the two
touch. -/
def bindMba (h : Mbah) (p : Ptr) (bind : Option Ptr) : Mbah × Option Ptr :=
  match h.mba? p with
  | none => (h, bind)
  | some mba =>
    let mba : Mba := { mba with isStatic := true, tgid := mbDefTgid }
    let h := { h.setMba mba with totStaticPages := h.totStaticPages + mba.pages }
    match bind.bind h.mba? with
    | none => (h, some p)
    | some b =>
      if b.pfnStart = mba.pfnEnd then (combindMba h mba b, some p)
      else if b.pfnEnd = mba.pfnStart then (combindMba h b mba, bind)
      else (h, some p)

def probeLoop (cfg : Config) : List PageOutcome → Mbah → Option Ptr → Option Mbah
  | outs, h, bind =>
    if h.totStaticPages * (pageSize / 1024) < cfg.mbTotalSize then
      match outs with
      | [] => none
      | out :: outs =>
        match mbAllocMba cfg out (probePages cfg h) h with
        | (h', none) => probeLoop cfg outs h' bind
        | (h', some p) =>
          let (h'', bind') := bindMba h' p bind
          probeLoop cfg outs h'' bind'
    else some h

def Mbah.empty : Mbah :=
  { nrMba := 0, totPages := 0, totStaticPages := 0, totFreePages := 0,
    maxAvailablePages := 0, mbaList := [] }

def mbProbe (cfg : Config) (outs : List PageOutcome) : Option State :=
  (probeLoop cfg outs Mbah.empty none).map fun h => { mbah := mbUpdateMbah h, mbtiList := [] }

/-! ### Operations -/

/-- The calls of the kernel and of user space. -/
inductive Op where
  | alloc (size : Nat) (tgid : Int) (name : Option Name) (out : AllocOutcome)
  | free (addr : Nat) (tgid : Int) (name : Option Name)
  | get (addr : Nat) (tgid : Int) (name : Option Name) (slab : Option Ptr)
  | put (addr : Nat) (tgid : Int) (name : Option Name)
  | ioFree (value : Nat) (tgid : Int) (name : Name)
  | ioUnmap (value : Nat) (tgid : Int)
  | ioGetByPhys (value : Nat) (tgid : Int) (name : Name) (slab : Option Ptr)
  | ioPutByPhys (value : Nat) (tgid : Int)
  | mmap (tgid : Int) (name : Name) (vma : Vma) (slab : Option Ptr) (remap : Bool)
  | open (tgid : Int) (comm : Name) (slab : Bool)
  | release (tgid : Int)
deriving Repr, DecidableEq

def State.withMbah (s : State) (h : Mbah) : State := { s with mbah := h }

def exec (cfg : Config) (s : State) : Op → State
  | .alloc size tgid name out => s.withMbah (mbDoAlloc cfg s.mbah size tgid name out).1
  | .free addr tgid name => s.withMbah (mbDoFree s.mbah addr tgid name).1
  | .get addr tgid name slab => s.withMbah (mbDoGet s.mbah addr tgid name slab).1
  | .put addr tgid name => s.withMbah (mbDoPut s.mbah addr tgid name).1
  | .ioFree value tgid name => s.withMbah (mbioFree s.mbah value tgid name).1
  | .ioUnmap value tgid => s.withMbah (mbioUnmap s.mbah value tgid).1
  | .ioGetByPhys value tgid name slab => s.withMbah (mbioGetByPhys s.mbah value tgid name slab).1
  | .ioPutByPhys value tgid => s.withMbah (mbioPutByPhys s.mbah value tgid).1
  | .mmap tgid name vma slab remap =>
    s.withMbah (mbMmap cfg s.mbah tgid name vma slab remap).1
  | .open tgid comm slab => (mbOpen s tgid comm slab).1
  | .release tgid => (mbRelease cfg s tgid).1

/-! ### What the kernel guarantees -/

/-- All users of all blocks. -/
def Mbah.mbus (h : Mbah) : List MbUser := h.mbs.flatMap Mb.mbuList

def Mba.span (a : Mba) : Nat × Nat := (a.pfnStart, a.pfnEnd)

/-- What `mb_alloc_mba` gets from the kernel: an unused slab object, and whole pages inside the
address space that no other area has. -/
structure PageOutcome.Sound (cfg : Config) (h : Mbah) (nrPages : Nat) (out : PageOutcome) :
    Prop where
  fresh : ∀ p, out.mba = some p → ∀ a ∈ h.mbaList, a.ptr ≠ p
  aligned : ∀ virt phys n, mbAllocPages cfg out nrPages = some (virt, phys, n) →
    phys % pageSize = 0
  nonzero : ∀ virt phys n, mbAllocPages cfg out nrPages = some (virt, phys, n) → phys ≠ 0
  inside : ∀ virt phys n, mbAllocPages cfg out nrPages = some (virt, phys, n) →
    phys + n * pageSize ≤ wordSize
  apart : ∀ virt phys n, mbAllocPages cfg out nrPages = some (virt, phys, n) →
    ∀ a ∈ h.mbaList, a.pfnEnd ≤ phys / pageSize ∨ phys / pageSize + n ≤ a.pfnStart

/-- The slab returns no user that is linked. -/
def FreshMbu (h : Mbah) (slab : Option Ptr) : Prop :=
  ∀ p, slab = some p → ∀ u ∈ h.mbus, u.ptr ≠ p

/-- The slab returns no block that is linked. -/
def FreshMb (h : Mbah) (slab : Option Ptr) : Prop :=
  ∀ p, slab = some p → ∀ m ∈ h.mbs, m.ptr ≠ p

/-- The allocators return memory that is not in use. -/
def Op.Sound (cfg : Config) (s : State) : Op → Prop
  | .alloc size _ _ out =>
    FreshMbu s.mbah out.mbu ∧ FreshMb s.mbah out.mb ∧
      out.page.Sound cfg s.mbah (pageAlign size / pageSize)
  | .get _ _ _ slab => FreshMbu s.mbah slab
  | .ioGetByPhys _ _ _ slab => FreshMbu s.mbah slab
  | .mmap _ _ _ slab _ => FreshMbu s.mbah slab
  | _ => True

def ProbeSound (cfg : Config) : List PageOutcome → Mbah → Option Ptr → Prop
  | [], _, _ => True
  | out :: outs, h, bind =>
    h.totStaticPages * (pageSize / 1024) < cfg.mbTotalSize →
      out.Sound cfg h (probePages cfg h) ∧
        match mbAllocMba cfg out (probePages cfg h) h with
        | (h', none) => ProbeSound cfg outs h' bind
        | (h', some p) => ProbeSound cfg outs (bindMba h' p bind).1 (bindMba h' p bind).2

/-- The state after `mb_probe`. -/
def Probed (cfg : Config) (s : State) : Prop :=
  ∃ outs, ProbeSound cfg outs Mbah.empty none ∧ mbProbe cfg outs = some s

def Step (cfg : Config) (op : Op) (s t : State) : Prop := op.Sound cfg s ∧ t = exec cfg s op

/-- The states of the driver. -/
def Reachable (cfg : Config) (s : State) : Prop := Reach (Probed cfg) (Step cfg) s

end Wm8850.MemBlock
