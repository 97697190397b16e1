import Wm8850.Ge.Device
import Wm8850.Proofs.Ge.Runs

/-! # The table of users

`gmp_users` has 16 entries, and a process that finds none free is not counted. That does no harm
while it has one descriptor. `Tracks` is an invariant of every run in which a process that opens
another descriptor is in the table. -/

namespace Wm8850.Ge

open Lib List Option

/-! ### The table -/

/-- The table with the open descriptors `fds`. An entry of a process counts its descriptors, and
a process without an entry has at most one. -/
structure Tracks (users : List GmpUser) (fds : List Int) : Prop where
  apart : users.Pairwise fun u v => u.pid = v.pid → u.pid = 0
  pos : ∀ u ∈ users, u.pid ≠ 0 → 0 < u.ref
  nonzero : 0 ∉ fds
  count : ∀ p, p ≠ 0 → getGmpUserRef users p = fds.count p ∨
    getGmpUserRef users p = 0 ∧ fds.count p ≤ 1

section
variable {users pre post : List GmpUser} {fds : List Int} {u e : GmpUser} {p q : Int}

lemma getGmpUserRef_of_missing (h : findKey GmpUser.pid p users = none) :
    getGmpUserRef users p = 0 := by
  rw [getGmpUserRef, h]

lemma getGmpUserRef_self (hu : u.pid = p) (hpre : ∀ x ∈ pre, x.pid ≠ p) :
    getGmpUserRef (pre ++ u :: post) p = u.ref := by
  have hfind : findKey GmpUser.pid p (pre ++ u :: post) = some u := by
    refine find?_eq_some_iff_append.mpr ⟨by simpa using hu, pre, post, rfl, ?_⟩
    simpa using hpre
  rw [getGmpUserRef, hfind]

lemma getGmpUserRef_of_ne (hu : u.pid ≠ q) (he : e.pid ≠ q) :
    getGmpUserRef (pre ++ e :: post) q = getGmpUserRef (pre ++ u :: post) q := by
  simp [getGmpUserRef, findKey, hu, he]

lemma Tracks.split (h : Tracks users fds) (hp : p ≠ 0) (hu : findKey GmpUser.pid p users = some u) :
    ∃ pre post, users = pre ++ u :: post ∧ u.pid = p ∧ (∀ x ∈ pre, x.pid ≠ p) ∧
      ∀ x ∈ post, x.pid ≠ p := by
  obtain ⟨pre, post, rfl, hpid, hpre⟩ := findKey_first hu
  refine ⟨pre, post, rfl, hpid, hpre, fun x hx hxp => hp ?_⟩
  have hpost := (pairwise_cons.mp (pairwise_append.mp h.apart).2.1).1 x hx
  rw [← hpid]
  exact hpost (hpid.trans hxp.symm)

lemma Tracks.ref_eq (h : Tracks (pre ++ u :: post) fds) (hp : p ≠ 0) (hu : u.pid = p)
    (hpre : ∀ x ∈ pre, x.pid ≠ p) : u.ref = fds.count p := by
  have hpos := h.pos u (by simp) (by rw [hu]; exact hp)
  have hcount := h.count p hp
  rw [getGmpUserRef_self hu hpre] at hcount
  omega

lemma Tracks.replace {fds' : List Int} (h : Tracks (pre ++ u :: post) fds)
    (hpos : e.pid ≠ 0 → 0 < e.ref)
    (hapart : e.pid ≠ 0 → ∀ x ∈ pre ++ post, x.pid ≠ e.pid) (hnonzero : 0 ∉ fds')
    (hothers : ∀ q, q ≠ 0 → u.pid ≠ q → e.pid ≠ q → fds'.count q = fds.count q)
    (hself : ∀ q, q ≠ 0 → u.pid = q ∨ e.pid = q →
      getGmpUserRef (pre ++ e :: post) q = fds'.count q) : Tracks (pre ++ e :: post) fds' := by
  have hold := h.apart
  rw [pairwise_append, pairwise_cons] at hold
  refine ⟨?_, fun x hx hxp => ?_, hnonzero, fun q hq => ?_⟩
  · rw [pairwise_append, pairwise_cons]
    refine ⟨hold.1, ⟨fun x hx hpid => ?_, hold.2.1.2⟩, fun x hx y hy hpid => ?_⟩
    · by_contra hne
      exact hapart hne x (by simp [hx]) hpid.symm
    · rcases mem_cons.mp hy with rfl | hy
      · by_contra hne
        exact hapart (hpid ▸ hne) x (by simp [hx]) hpid
      · exact hold.2.2 x hx y (by simp [hy]) hpid
  · rcases mem_append.mp hx with hx | hx
    · exact h.pos x (by simp [hx]) hxp
    · rcases mem_cons.mp hx with rfl | hx
      · exact hpos hxp
      · exact h.pos x (by simp [hx]) hxp
  by_cases hu : u.pid = q
  · exact .inl (hself q hq (.inl hu))
  · by_cases he : e.pid = q
    · exact .inl (hself q hq (.inr he))
    · rw [getGmpUserRef_of_ne hu he, hothers q hq hu he]
      exact h.count q hq

/-! ### Opening and releasing -/

lemma Tracks.add (h : Tracks users fds) (hp : p ≠ 0)
    (hcounted : p ∈ fds → ∃ u ∈ users, u.pid = p) : Tracks (addGmpUser users p) (p :: fds) := by
  have hnonzero : 0 ∉ p :: fds := by
    simpa [mem_cons, hp.symm] using h.nonzero
  have hothers : ∀ q, p ≠ q → (p :: fds).count q = fds.count q := fun q hq =>
    count_cons_of_ne hq
  have hown : (p :: fds).count p = fds.count p + 1 := count_cons_self
  unfold addGmpUser
  cases hfind : findKey GmpUser.pid p users with
  | some u =>
    obtain ⟨pre, post, rfl, hu, hpre, hpost⟩ := h.split hp hfind
    have href := h.ref_eq hp hu hpre
    rw [updateKey_split hu hpre]
    refine h.replace (fun _ => ?_) (fun _ x hx => ?_) hnonzero
      (fun q _ hq _ => hothers q (hu ▸ hq)) (fun q _ hq => ?_)
    · show 0 < u.ref + 1
      omega
    · rw [hu]
      exact (mem_append.mp hx).elim (hpre x) (hpost x)
    · obtain rfl : p = q := hu.symm.trans (hq.elim id id)
      rw [getGmpUserRef_self (by exact hu) hpre]
      show u.ref + 1 = _
      omega
  | none =>
    have hmissing := findKey_eq_none.mp hfind
    -- `p` has no entry, so this is its only descriptor.
    have hzero : fds.count p = 0 := by
      refine count_eq_zero.mpr fun hmem => ?_
      obtain ⟨u, hu, hup⟩ := hcounted hmem
      exact hmissing u hu hup
    cases hfree : findKey GmpUser.pid 0 users with
    | some u =>
      obtain ⟨pre, post, rfl, hu, hpre⟩ := findKey_first hfree
      rw [updateKey_split hu hpre]
      have hpre' : ∀ x ∈ pre, x.pid ≠ p := fun x hx => hmissing x (by simp [hx])
      refine h.replace (fun _ => by simp) (fun _ x hx => hmissing x ?_) hnonzero
        (fun q _ _ hq => hothers q hq) (fun q hq hq' => ?_)
      · rcases mem_append.mp hx with hx | hx
        all_goals simp [hx]
      · obtain rfl : p = q := hq'.elim (fun h0 => absurd (hu.symm.trans h0).symm hq) id
        rw [getGmpUserRef_self rfl hpre', hown, hzero]
        rfl
    | none =>
      rw [updateKey_of_forall_ne (findKey_eq_none.mp hfree)]
      refine ⟨h.apart, h.pos, hnonzero, fun q hq => ?_⟩
      by_cases hpq : p = q
      · subst hpq
        refine .inr ⟨getGmpUserRef_of_missing hfind, ?_⟩
        omega
      · rw [hothers q hpq]
        exact h.count q hq

/-- A descriptor of the process `p` is released. What is left in the table for `p` is then the
number of its other descriptors. -/
theorem Tracks.remove (h : Tracks users fds) (hmem : p ∈ fds) :
    Tracks (removeGmpUser users p) (fds.erase p) ∧
      getGmpUserRef (removeGmpUser users p) p = (fds.erase p).count p := by
  have hp : p ≠ 0 := fun hp => h.nonzero (hp ▸ hmem)
  have hnonzero : 0 ∉ fds.erase p := fun h0 => h.nonzero (mem_of_mem_erase h0)
  have hothers : ∀ q, p ≠ q → (fds.erase p).count q = fds.count q := fun q hq =>
    count_erase_of_ne hq.symm
  have hown : (fds.erase p).count p = fds.count p - 1 := count_erase_self
  have hpos : 0 < fds.count p := count_pos_iff.mpr hmem
  unfold removeGmpUser
  cases hfind : findKey GmpUser.pid p users with
  | some u =>
    obtain ⟨pre, post, rfl, hu, hpre, hpost⟩ := h.split hp hfind
    have href := h.ref_eq hp hu hpre
    rw [updateKey_split hu hpre]
    by_cases hlast : u.ref - 1 = 0
    · -- the entry is free again, and `p` has no other one
      have hnone : ∀ x ∈ pre ++ { pid := 0, ref := u.ref - 1 } :: post, x.pid ≠ p := by
        intro x hx
        rcases mem_append.mp hx with hx | hx
        · exact hpre x hx
        · rcases mem_cons.mp hx with rfl | hx
          · exact hp.symm
          · exact hpost x hx
      have hleft : getGmpUserRef (pre ++ { pid := 0, ref := u.ref - 1 } :: post) p =
        (fds.erase p).count p := by
        rw [getGmpUserRef_of_missing (findKey_eq_none.mpr hnone)]
        omega
      rw [if_pos hlast]
      refine ⟨h.replace (fun hne => absurd rfl hne) (fun hne => absurd rfl hne) hnonzero
        (fun q _ hq _ => hothers q (hu ▸ hq)) (fun q hq hq' => ?_), hleft⟩
      obtain rfl : p = q := hq'.elim hu.symm.trans fun h0 => absurd h0.symm hq
      exact hleft
    have hleft : getGmpUserRef (pre ++ { pid := u.pid, ref := u.ref - 1 } :: post) p
        = (fds.erase p).count p := by
      rw [getGmpUserRef_self (by exact hu) hpre]
      show u.ref - 1 = _
      omega
    rw [if_neg hlast]
    refine ⟨h.replace (fun _ => ?_) (fun _ x hx => ?_) hnonzero
      (fun q _ hq _ => hothers q (hu ▸ hq)) (fun q _ hq => ?_), hleft⟩
    · show 0 < u.ref - 1
      omega
    · rw [hu]
      exact (mem_append.mp hx).elim (hpre x) (hpost x)
    · obtain rfl : p = q := hu.symm.trans (hq.elim id id)
      exact hleft
  | none =>
    have href := getGmpUserRef_of_missing hfind
    have hcount := h.count p hp
    rw [updateKey_of_forall_ne (findKey_eq_none.mp hfind)]
    refine ⟨⟨h.apart, h.pos, hnonzero, fun q hq => ?_⟩, by omega⟩
    by_cases hpq : p = q
    · subst hpq
      omega
    · rw [hothers q hpq]
      exact h.count q hq

/-- A process without an entry opens a descriptor and releases one. Then nothing is left in the
table for it, whether the open found a free entry or not. -/
theorem getGmpUserRef_uncounted (hp : p ≠ 0) (hmissing : ∀ u ∈ users, u.pid ≠ p) :
    getGmpUserRef (removeGmpUser (addGmpUser users p) p) p = 0 := by
  have hfind := findKey_eq_none.mpr hmissing
  rw [addGmpUser, hfind]
  cases hfree : findKey GmpUser.pid 0 users with
  | some u =>
    obtain ⟨pre, post, rfl, hu, hpre⟩ := findKey_first hfree
    have hpre' : ∀ x ∈ pre, x.pid ≠ p := fun x hx => hmissing x (by simp [hx])
    have hset : (⟨p, 1⟩ : GmpUser).pid = p := rfl
    simp only [updateKey_split hu hpre]
    rw [removeGmpUser, updateKey_split hset hpre']
    refine getGmpUserRef_of_missing (findKey_eq_none.mpr fun x hx => ?_)
    rcases mem_append.mp hx with hx | hx
    · exact hpre' x hx
    · rcases mem_cons.mp hx with rfl | hx
      · exact hp.symm
      · exact hmissing x (by simp [hx])
  | none =>
    have hfull := findKey_eq_none.mp hfree
    simp only [removeGmpUser, updateKey_of_forall_ne hfull, updateKey_of_forall_ne hmissing]
    exact getGmpUserRef_of_missing hfind

lemma gmpDeviceRelease_eq (d : Device) (pid : Int) : gmpDeviceRelease d pid
      = if getGmpUserRef (removeGmpUser d.users pid) pid = 0 then
          (gmpInvalidate d.gmp pid).map fun g => { gmp := g, users := removeGmpUser d.users pid }
        else some { d with users := removeGmpUser d.users pid } := by
  by_cases hlast : getGmpUserRef (removeGmpUser d.users pid) pid = 0
  · simp only [gmpDeviceRelease]
    cases gmpInvalidate d.gmp pid <;> rfl
  · simp only [gmpDeviceRelease, if_neg hlast]
    rfl

end

/-! ### Runs -/

/-- A call of a process that is counted. -/
def CountedStep (op : DeviceOp) (s s' : DeviceRun) : Prop := DeviceStep op s s' ∧ op.Counted s

lemma tracks_started {pa nr : Nat} {s : DeviceRun} (h : DeviceStarted pa nr s) :
    Tracks s.dev.users s.fds := by
  obtain ⟨-, husers, hfds⟩ := h
  rw [husers, hfds]
  refine ⟨?_, fun u hu hne => ?_, by simp, fun q hq => .inr ⟨?_, by simp⟩⟩
  · exact pairwise_replicate.mpr (.inr fun _ => rfl)
  · rw [eq_of_mem_replicate hu] at hne
    exact absurd rfl hne
  · refine getGmpUserRef_of_missing (findKey_eq_none.mpr fun u hu => ?_)
    rw [eq_of_mem_replicate hu]
    exact hq.symm

lemma CountedStep.keeps {pa nr : Nat} {op : DeviceOp} {s s' : DeviceRun}
    (hstep : CountedStep op s s') (ht : Tracks s.dev.users s.fds) (hr : Reachable pa nr s.dev.gmp) :
    Tracks s'.dev.users s'.fds ∧ Reachable pa nr s'.dev.gmp := by
  obtain ⟨⟨hsound, hexec⟩, hcounted⟩ := hstep
  cases op with
  | openFd tgid =>
    cases hexec
    exact ⟨ht.add hsound hcounted, hr⟩
  | releaseFd pid =>
    obtain ⟨d, hd, hs'⟩ := bind_eq_some_iff.mp hexec
    cases hs'
    rw [gmpDeviceRelease_eq] at hd
    have hremove := (ht.remove hsound).1
    split at hd
    · obtain ⟨g, hg, rfl⟩ := map_eq_some_iff.mp hd
      exact ⟨hremove, Reach.next (.invalidate pid) hr (by simp [PoolStep, Call.exec, hg])⟩
    · cases hd
      exact ⟨hremove, hr⟩
  | call c =>
    obtain ⟨g, hg, hs'⟩ := bind_eq_some_iff.mp hexec
    cases hs'
    exact ⟨ht, Reach.next c hr (by simp [PoolStep, hg])⟩

lemma tracks_of_reach {pa nr : Nat} {s : DeviceRun}
    (h : Reach (DeviceStarted pa nr) CountedStep s) :
    Tracks s.dev.users s.fds ∧ Reachable pa nr s.dev.gmp := by
  refine Reach.invariant (fun s => Tracks s.dev.users s.fds ∧ Reachable pa nr s.dev.gmp)
    (fun s hs => ⟨tracks_started hs, Reach.start hs.1⟩) (fun op s s' hinv hstep => ?_) h
  exact hstep.keeps hinv.1 hinv.2

lemma gmpInvalidate_owner {g : Gmp} (hw : g.Wf) (pid : Int) :
    ∃ g' ds, gmpInvalidate g pid = some g' ∧ g'.visits = some ds ∧ ∀ d ∈ ds, d.used = true →
      d.owner ≠ pid := by
  obtain ⟨ds, hl⟩ := hw.laid
  obtain ⟨g1, g', ds', hrun, -, hsame, hm⟩ := gmpInvalidate_spec hw.sized hl pid
  have hs' := hm.sized hsame.sized
  refine ⟨g', ds', hrun, hm.laid.visitsFrom_eq (hm.laid.ne_nil hs') (hm.laid.length_le hs'), ?_⟩
  intro d hd hused
  -- The used blocks are those that were there before the merge.
  obtain ⟨k, hk⟩ : ∃ k, (k, d) ∈ place Gmdesc.order 0 ds' := exists_mem_place 0 hd
  have hmem : (k, d) ∈ usedBlocks 0 (ds.map (Gmdesc.releaseOf pid)) := by
    rw [← hm.used]
    exact mem_filter.mpr ⟨hk, hused⟩
  have hmem' : d ∈ ds.map (Gmdesc.releaseOf pid) := mem_of_mem_place (mem_filter.mp hmem).1
  obtain ⟨c, -, rfl⟩ := mem_map.mp hmem'
  intro howner
  by_cases hc : c.owner = pid
  · simp [Gmdesc.releaseOf, hc, Gmdesc.release] at hused
  · simp [Gmdesc.releaseOf, hc] at howner

/-- In every run in which a process that has a descriptor open is in `gmp_users` when it opens
another one: a release invalidates the blocks of the process when no other descriptor of it is open,
and otherwise leaves the pool. The condition is sharp. -/
theorem release_invalidates {pa nr : Nat} {s : DeviceRun}
    (h : Reach (DeviceStarted pa nr) CountedStep s) : (∀ pid ∈ s.fds, gmpDeviceRelease s.dev pid
      = if pid ∈ s.fds.erase pid then some { s.dev with users := removeGmpUser s.dev.users pid }
        else (gmpInvalidate s.dev.gmp pid).map fun g =>
          { gmp := g, users := removeGmpUser s.dev.users pid }) ∧
    (pa < wordSize → 0 < nr → nr * unitSize < 2 ^ 31 → ∀ pid, ∃ g ds,
      gmpInvalidate s.dev.gmp pid = some g ∧ g.visits = some ds ∧ ∀ d ∈ ds, d.used = true →
        d.owner ≠ pid) ∧
    ∀ tgid ∈ s.fds, ¬ (DeviceOp.openFd tgid).Counted s → tgid ∈ (tgid :: s.fds).erase tgid ∧
      gmpDeviceRelease (gmpDeviceOpen s.dev tgid) tgid = (gmpInvalidate s.dev.gmp tgid).map fun g =>
          { gmp := g, users := removeGmpUser (addGmpUser s.dev.users tgid) tgid } := by
  obtain ⟨ht, hr⟩ := tracks_of_reach h
  refine ⟨fun pid hpid => ?_, fun hpa hpos hlen pid => ?_, fun tgid hmem huncounted => ?_⟩
  · have hleft := (ht.remove hpid).2
    rw [gmpDeviceRelease_eq, hleft]
    by_cases hother : pid ∈ s.fds.erase pid
    · have hpos : 0 < (s.fds.erase pid).count pid := count_pos_iff.mpr hother
      rw [if_pos hother, if_neg (by omega)]
    · rw [if_neg hother, if_pos (by rw [count_eq_zero.mpr hother]; rfl)]
  · exact gmpInvalidate_owner (reachable_wf hpa hpos hlen hr).1 pid
  have hne : tgid ≠ 0 := fun h0 => ht.nonzero (h0 ▸ hmem)
  have hmissing : ∀ u ∈ s.dev.users, u.pid ≠ tgid := by
    intro u hu hpid
    exact huncounted fun _ => ⟨u, hu, hpid⟩
  refine ⟨by simpa using hmem, ?_⟩
  rw [gmpDeviceRelease_eq]
  exact if_pos (getGmpUserRef_uncounted hne hmissing)

instance (s : DeviceRun) : (op : DeviceOp) → Decidable (op.Sound s)
  | .openFd tgid => inferInstanceAs (Decidable (tgid ≠ 0))
  | .releaseFd pid => inferInstanceAs (Decidable (pid ∈ s.fds))
  | .call _ => inferInstanceAs (Decidable True)

def smallDevice : DeviceRun :=
  { dev := { gmp := smallPool, users := replicate maxGmpUsers { pid := 0, ref := 0 } }
    fds := [] }

lemma started_smallDevice : DeviceStarted 0x1000000 5 smallDevice :=
  ⟨⟨smallMem, none, 3, rfl, by decide +kernel⟩, rfl, rfl⟩

/-- A process opens the device twice. The first release keeps its blocks. -/
theorem release_first_of_two : ∃ s, Reach (DeviceStarted 0x1000000 5) CountedStep s ∧
    s.fds = [7, 7] ∧
      ∃ d, gmpDeviceRelease s.dev 7 = some d ∧ d.gmp = s.dev.gmp := by
  have hstart : Reach (DeviceStarted 0x1000000 5) CountedStep smallDevice :=
    Reach.start started_smallDevice
  have hfirst : CountedStep (.openFd 7) smallDevice _ :=
    ⟨⟨by decide, rfl⟩, fun h => absurd h (by decide)⟩
  have hsecond : CountedStep (.openFd 7) { dev := gmpDeviceOpen smallDevice.dev 7, fds := [7] } _ :=
    ⟨⟨by decide, rfl⟩, fun _ => ⟨⟨7, 1⟩, by decide +kernel, rfl⟩⟩
  have hagain := Reach.next _ (Reach.next _ hstart hfirst) hsecond
  have hrelease := (release_invalidates hagain).1 7 (by decide +kernel)
  exact ⟨_, hagain, rfl, _, hrelease, rfl⟩

/-- Sixteen processes open the device. The process 7 opens it twice and allocates a block. -/
def crowd : List DeviceOp :=
  ((range 16).map fun k => .openFd (100 + k))
    ++ [.openFd 7, .openFd 7, .call (.alloc 100 0 7 none)]

def DeviceOp.checked (s : DeviceRun) (op : DeviceOp) : Option DeviceRun :=
  if op.Sound s then op.exec s else none

def crowded : DeviceRun := (crowd.foldlM DeviceOp.checked smallDevice).getD smallDevice

/-- The table has no entry for the process 7. It closes one of its two descriptors, and its block
is released. -/
theorem crowded_release : Reach (DeviceStarted 0x1000000 5) DeviceStep crowded ∧
    7 ∈ crowded.fds.erase 7 ∧
    (∃ ds, crowded.dev.gmp.visits = some ds ∧ ∃ d ∈ ds, d.used = true ∧ d.owner = 7) ∧
    ∃ d ds, gmpDeviceRelease crowded.dev 7 = some d ∧ d.gmp.visits = some ds ∧
      ∀ p ∈ ds, p.used = true → p.owner ≠ 7 := by
  have hrun : crowd.foldlM DeviceOp.checked smallDevice = some crowded := by decide +kernel
  refine ⟨Reach.foldlM (fun op s t h => ?_) crowd (Reach.start started_smallDevice) hrun,
    by decide +kernel, ?_, ?_⟩
  · unfold DeviceOp.checked at h
    split at h
    · next hsound => exact ⟨hsound, h⟩
    · cases h
  · exact ⟨(crowded.dev.gmp.visits).getD [], by decide +kernel, by decide +kernel⟩
  · exact ⟨(gmpDeviceRelease crowded.dev 7).getD crowded.dev,
      ((gmpDeviceRelease crowded.dev 7).bind fun d => d.gmp.visits).getD [],
      by decide +kernel, by decide +kernel, by decide +kernel⟩

end Wm8850.Ge
