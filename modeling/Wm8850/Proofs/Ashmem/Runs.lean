import Mathlib.Data.List.Nodup
import Wm8850.Proofs.Ashmem.Ranges

/-! # What holds after any calls

`Consistent`: the list of every area is a descending list of ranges, and the lru list and its count
are those of all areas.

Unpinning an empty interval at the end of the area makes an empty range, and `page_range_in_range`
finds it in the last page (`empty_range_unpins`). If the allocation of a range fails, its flag
`purged` is lost with it (`purged_page_forgotten`). -/

namespace Wm8850.Ashmem

open Lib Function List Nat

variable {pgstart pgend : Nat} {Allowed : (Range → Bool) → Prop} {c : Call} {area a : Area}
  {i p n asma : Nat}
    {r : Range} {t : State} {calls : List Truncate}

def areaPages (area : Area) : Nat := pageAlign area.size / pageSize

/-! ### The interval of a call -/

lemma or_mask_eq_zero {a b : Nat} (h : (a ||| b) &&& (pageSize - 1) = 0) :
    a % pageSize = 0 ∧ b % pageSize = 0 := by
  have hmod : (a ||| b) % 2 ^ 12 = 0 := by
    rw [← and_two_pow_sub_one_eq_mod]
    exact h
  rw [or_mod_two_pow, or_eq_zero_iff] at hmod
  exact hmod

lemma pinArgs_bounds {size offset len : Nat} (hpos : 0 < size) (hsize : size ≤ 0xFFFFF000)
    (hoffset : offset < wordSize) (h : pinArgs size offset len = .ok (pgstart, pgend)) :
    (pgstart ≤ pgend ∧ pgend < pageAlign size / pageSize) ∨
      (pgstart = pageAlign size / pageSize ∧ pgend + 1 = pageAlign size / pageSize) := by
  unfold pinArgs at h
  obtain ⟨n, hn⟩ : ∃ n, n = if len = 0 then wsub (pageAlign size) offset else len := ⟨_, rfl⟩
  rw [← hn] at h
  dsimp only at h
  split at h
  · cases h
  next hmask =>
  split at h
  · cases h
  next hwrap =>
  split at h
  · cases h
  next hfits =>
  obtain ⟨ho, hl⟩ := or_mask_eq_zero (not_not.mp hmask)
  cases h
  have hzero : n = 0 → offset = pageAlign size := by
    split at hn
    · unfold wsub wordSize at hn
      unfold pageAlign wadd pageSize wordSize at *
      omega
    · omega
  unfold pageAlign wadd wsub pageSize wordSize at *
  rcases Nat.eq_zero_or_pos n with hn0 | hnpos
  · omega
  · omega

lemma areaPages_lt (h : area.size ≤ 0xFFFFF000) : areaPages area < 2 ^ 20 := by
  unfold areaPages pageAlign wadd pageSize wordSize
  omega

lemma Accepted.bounds {pin : Option (BitVec 32 × BitVec 32)}
    (h : Accepted area pin pgstart pgend) (hsize : area.size ≤ 0xFFFFF000)
    (hfile : area.file = true → 0 < area.size) : (pgstart ≤ pgend ∧ pgend < areaPages area) ∨
      (pgstart = areaPages area ∧ pgend + 1 = areaPages area) := by
  obtain ⟨hset, offset, len, -, hargs⟩ := h
  exact pinArgs_bounds (hfile hset) hsize offset.isLt hargs

section
variable {allocs : Range → Bool} {asma : Nat} {area : Area} {lru : Lru} {cmd : Cmd}
  {pin : Option (BitVec 32 × BitVec 32)} {pgstart pgend : Nat}

lemma ashmemPinUnpin_accepted (h : Accepted area pin pgstart pgend) :
    ashmemPinUnpin allocs asma area lru cmd pin =
      match cmd with
      | .pin =>
        let res := pinLoop allocs asma pgstart pgend area.unpinned lru
        (if res.2.2 then 1 else 0, { area with unpinned := res.1 }, res.2.1)
      | .unpin =>
        let res := unpinLoop allocs asma area.unpinned lru pgstart pgend false
        (res.1, { area with unpinned := res.2.1 }, res.2.2)
      | .getPinStatus => ((if statusLoop pgstart pgend area.unpinned then 0 else 1), area,
        lru) := by
  obtain ⟨hfile, offset, len, rfl, hargs⟩ := h
  unfold ashmemPinUnpin
  rw [if_neg (by simp [hfile])]
  cases cmd <;> simp only [hargs]

lemma ashmemPinUnpin_rejected (h : ∀ pgstart pgend, ¬ Accepted area pin pgstart pgend) :
    (ashmemPinUnpin allocs asma area lru cmd pin).2 = (area, lru) := by
  unfold ashmemPinUnpin
  split
  · rfl
  next hfile =>
  split
  · rfl
  next offset len =>
  split
  · rfl
  next pgstart pgend hargs =>
  exact absurd ⟨by simpa using hfile, offset, len, rfl, hargs⟩ (h pgstart pgend)

lemma ashmemPinUnpin_cases (allocs : Range → Bool) (asma : Nat) (area : Area) (lru : Lru)
    (cmd : Cmd) (pin : Option (BitVec 32 × BitVec 32)) :
    ((ashmemPinUnpin allocs asma area lru cmd pin).2 = (area, lru) ∧
        ∀ pgstart pgend, cmd = .pin → ¬ Accepted area pin pgstart pgend) ∨
      ∃ pgstart pgend, Accepted area pin pgstart pgend ∧
        ((cmd = .pin ∧ (ashmemPinUnpin allocs asma area lru cmd pin).2 =
            let res := pinLoop allocs asma pgstart pgend area.unpinned lru
            ({ area with unpinned := res.1 }, res.2.1)) ∨
          (cmd = .unpin ∧ (ashmemPinUnpin allocs asma area lru cmd pin).2 =
            let res := unpinLoop allocs asma area.unpinned lru pgstart pgend false
            ({ area with unpinned := res.2.1 }, res.2.2))) := by
  by_cases hacc : ∃ pgstart pgend, Accepted area pin pgstart pgend
  · obtain ⟨pgstart, pgend, hacc⟩ := hacc
    cases cmd with
    | pin => exact .inr ⟨_, _, hacc, .inl ⟨rfl, by rw [ashmemPinUnpin_accepted hacc]⟩⟩
    | unpin => exact .inr ⟨_, _, hacc, .inr ⟨rfl, by rw [ashmemPinUnpin_accepted hacc]⟩⟩
    | getPinStatus =>
      exact .inl ⟨by rw [ashmemPinUnpin_accepted hacc], fun _ _ hcmd => by cases hcmd⟩
  · have hnone : ∀ pgstart pgend, ¬ Accepted area pin pgstart pgend := fun a b h => hacc ⟨a, b, h⟩
    exact .inl ⟨ashmemPinUnpin_rejected hnone, fun a b _ => hnone a b⟩

end

/-! ### The invariant -/

structure Consistent (s : State) : Prop where
  areas : ∀ i a, s.areas[i]? = some a → Sound (areaPages a) i a.unpinned
  size : ∀ a ∈ s.areas, a.size ≤ 0xFFFFF000
  file : ∀ a ∈ s.areas, a.file = true → 0 < a.size
  accounts : Accounts s.lru s.ranges

lemma exists_others {areas : List Area} (h : areas[i]? = some a) :
    ∃ others, (areas.flatMap Area.unpinned).Perm (a.unpinned ++ others) ∧
      ∀ a', ((areas.set i a').flatMap Area.unpinned).Perm (a'.unpinned ++ others) := by
  induction areas generalizing i with
  | nil => cases h
  | cons b bs ih =>
    cases i with
    | zero =>
      cases h
      exact ⟨bs.flatMap Area.unpinned, List.Perm.refl _, fun a' => List.Perm.refl _⟩
    | succ i =>
      obtain ⟨others, hperm, hset⟩ := ih (i := i) h
      refine ⟨b.unpinned ++ others, ?_, fun a' => ?_⟩
      · exact (hperm.append_left _).trans (perm_append_comm_assoc _ _ _)
      · exact ((hset a').append_left _).trans (perm_append_comm_assoc _ _ _)

section
variable {s : State} {allocs : Range → Bool} {asma : Nat} {area : Area} {cmd : Cmd}
  {pin : Option (BitVec 32 × BitVec 32)} {pgstart pgend : Nat}

section
variable (h : Consistent s) (harea : s.areas[asma]? = some area)
include h harea

lemma Consistent.areaPages_lt : areaPages area < wordSize := by
  have hlt := Ashmem.areaPages_lt (h.size area (mem_of_getElem? harea))
  unfold wordSize
  omega

lemma Consistent.bounds (hacc : Accepted area pin pgstart pgend) :
    (pgstart ≤ pgend ∧ pgend < areaPages area) ∨
      (pgstart = areaPages area ∧ pgend + 1 = areaPages area) :=
  have hmem := mem_of_getElem? harea
  hacc.bounds (h.size area hmem) (h.file area hmem)

lemma Consistent.area_after (allocs : Range → Bool) (cmd : Cmd)
    (pin : Option (BitVec 32 × BitVec 32))
    {others : List Range} (hacct : Accounts s.lru (area.unpinned ++ others)) {a : Area} {lru : Lru}
    (hr : (ashmemPinUnpin allocs asma area s.lru cmd pin).2 = (a, lru)) :
    a.size = area.size ∧ a.file = area.file ∧ Sound (areaPages area) asma a.unpinned ∧
      Accounts lru (a.unpinned ++ others) := by
  have hs := h.areas asma area harea
  have hlt := h.areaPages_lt harea
  rcases ashmemPinUnpin_cases allocs asma area s.lru cmd pin with
    ⟨hrun, -⟩ | ⟨pgstart, pgend, hacc, ⟨-, hrun⟩ | ⟨-, hrun⟩⟩
  · cases hr.symm.trans hrun
    exact ⟨rfl, rfl, hs, hacct⟩
  · cases hr.symm.trans hrun
    have hbounds := h.bounds harea hacc
    exact ⟨rfl, rfl, hs.pinLoop (by omega), hacct.pinLoop hs (by omega) hlt⟩
  · cases hr.symm.trans hrun
    have hbounds := h.bounds harea hacc
    exact ⟨rfl, rfl, hs.unpinLoop (by omega) (by omega),
      hacct.unpinLoop hs hlt (by omega) (by omega)⟩

lemma Consistent.pinUnpin : Consistent
    ⟨s.areas.set asma (ashmemPinUnpin allocs asma area s.lru cmd pin).2.1,
      (ashmemPinUnpin allocs asma area s.lru cmd pin).2.2⟩ := by
  obtain ⟨others, hperm, hset⟩ := exists_others harea
  obtain ⟨hsize, hfile, hsound, hacct⟩ :=
    h.area_after harea allocs cmd pin (h.accounts.perm hperm) rfl
  have hmem := mem_of_getElem? harea
  refine ⟨?_, ?_, ?_, hacct.perm (hset _).symm⟩
  · intro i a ha
    rw [getElem?_set] at ha
    split at ha
    · next heq =>
      subst heq
      split at ha
      · cases ha
        unfold areaPages at hsound ⊢
        rwa [hsize]
      · cases ha
    · exact h.areas i a ha
  · intro a ha
    rcases mem_or_eq_of_mem_set ha with ha | rfl
    · exact h.size a ha
    · rw [hsize]
      exact h.size area hmem
  intro a ha
  rcases mem_or_eq_of_mem_set ha with ha | rfl
  · exact h.file a ha
  · rw [hsize, hfile]
    exact h.file area hmem

end

end

/-! ### `ashmem_shrink` -/

structure Marks (g : Range → Range) : Prop where
  id : ∀ r, (g r).id = r.id
  asma : ∀ r, (g r).asma = r.asma
  pgstart : ∀ r, (g r).pgstart = r.pgstart
  pgend : ∀ r, (g r).pgend = r.pgend
  purged : ∀ r, r.purged = true → (g r).purged = true

def markArea (g : Range → Range) (a : Area) : Area := { a with unpinned := a.unpinned.map g }

lemma marks_setPurged (id : Nat) : Marks (setPurged id) := by
  refine ⟨?_, ?_, ?_, ?_, ?_⟩ <;> intro r <;> unfold setPurged <;> split <;> simp

section
variable {g : Range → Range} {n asma : Nat} {ranges : List Range}

lemma Sound.marked (h : Sound n asma ranges) (hg : Marks g) : Sound n asma (ranges.map g) := by
  refine ⟨?_, ?_, ?_, ?_⟩
  · refine pairwise_map.mpr (h.descending.imp ?_)
    intro x y hxy
    rwa [hg.pgend, hg.pgstart]
  · refine forall_mem_map.mpr fun r hr => ?_
    rw [hg.pgstart, hg.pgend]
    exact h.order r hr
  · refine forall_mem_map.mpr fun r hr => ?_
    rw [hg.pgend]
    exact h.bound r hr
  · refine forall_mem_map.mpr fun r hr => ?_
    rw [hg.asma]
    exact h.asma r hr

lemma Nonempty.marked (h : Nonempty ranges) (hg : Marks g) : Nonempty (ranges.map g) := by
  refine forall_mem_map.mpr fun r hr => ?_
  rw [hg.pgstart, hg.pgend]
  exact h r hr

lemma purged_subset_marked (hg : Marks g) :
    pages (fun f => f = true) ranges ⊆ pages (fun f => f = true) (ranges.map g) := by
  rintro p ⟨r, hr, hflag, hp⟩
  refine ⟨g r, mem_map_of_mem hr, hg.purged r hflag, ?_⟩
  rwa [hg.pgstart, hg.pgend]

end

section
variable {s : State}

lemma purge_ranges (s : State) (r : Range) :
    (purge s r).ranges = s.ranges.map (setPurged r.id) := by
  unfold State.ranges purge
  rw [flatMap_map, map_flatMap]

lemma exists_find {id : Nat} (hid : id ∈ s.ranges.map Range.id) :
    ∃ r, s.ranges.find? (fun r => r.id == id) = some r ∧ r ∈ s.ranges ∧ r.id = id := by
  obtain ⟨r, hr, hrid⟩ := mem_map.mp hid
  cases hfind : s.ranges.find? (fun r => r.id == id) with
  | none =>
    have hnot := find?_eq_none.mp hfind r hr
    exact absurd hrid (by simpa using hnot)
  | some x => exact ⟨x, rfl, mem_of_find?_eq_some hfind, by simpa using find?_some hfind⟩

lemma Consistent.find (h : Consistent s) {id : Nat} (hid : id ∈ s.lru.ranges) :
    ∃ r, s.ranges.find? (fun r => r.id == id) = some r ∧ r ∈ s.ranges ∧ r.id = id ∧
      r.purged = false := by
  obtain ⟨r, hr, hrid⟩ := mem_map.mp (h.accounts.list.mem_iff.mp hid)
  obtain ⟨hr, hflag⟩ := mem_filter.mp hr
  obtain ⟨x, hfind, hx, hxid⟩ := exists_find (mem_map.mpr ⟨r, hr, hrid⟩)
  -- The addresses are different ones, so the range with this address is `r`.
  have hxr : x = r := inj_on_of_nodup_map h.accounts.ids hx hr (hxid.trans hrid.symm)
  exact ⟨x, hfind, hx, hxid, by rw [hxr]; simpa using hflag⟩

section
variable (h : Consistent s) (hr : r ∈ s.ranges)
include h hr

lemma Consistent.exists_area : ∃ a, s.areas[r.asma]? = some a ∧ r ∈ a.unpinned := by
  obtain ⟨a, ha, hra⟩ := mem_flatMap.mp hr
  obtain ⟨i, hi⟩ := mem_iff_getElem?.mp ha
  rw [(h.areas i a hi).asma r hra]
  exact ⟨a, hi, hra⟩

lemma Consistent.inWord : InWord r := by
  obtain ⟨a, ha, hra⟩ := h.exists_area hr
  exact (h.areas _ a ha).inWord (h.areaPages_lt ha) hra

lemma Consistent.purge (hflag : r.purged = false) : Consistent (purge s r) := by
  refine ⟨?_, forall_mem_map.mpr h.size, forall_mem_map.mpr h.file, ?_⟩
  · intro i a' ha'
    rw [show (Ashmem.purge s r).areas = s.areas.map (markArea (setPurged r.id)) from rfl,
      getElem?_map] at ha'
    obtain ⟨a, ha, rfl⟩ := Option.map_eq_some_iff.mp ha'
    exact (h.areas i a ha).marked (marks_setPurged r.id)
  obtain ⟨front, back, hsplit⟩ := append_of_mem hr
  have hids := h.accounts.ids
  have hfirst : s.ranges.Perm (r :: (front ++ back)) := by
    rw [hsplit]
    exact perm_middle
  have hnodup := nodup_cons.mp ((hfirst.map Range.id).nodup_iff.mp hids)
  -- Only the flag of `r` changes, since no other range has its address.
  have hother : (front ++ back).map (setPurged r.id) = front ++ back := by
    refine (map_congr_left fun x hx => ?_).trans (map_id _)
    refine if_neg fun hid => hnodup.1 ?_
    rw [← hid]
    exact mem_map_of_mem hx
  have hranges : (Ashmem.purge s r).ranges.Perm ({ r with purged := true } :: (front ++ back)) := by
    have hself : setPurged r.id r = { r with purged := true } := if_pos rfl
    rw [purge_ranges]
    have hperm := hfirst.map (setPurged r.id)
    rwa [map_cons, hother, hself] at hperm
  exact ((h.accounts.perm hfirst).purge hflag (h.inWord hr)).perm hranges.symm

end

/-- All that the shrinker does to the areas: it sets flags, and each call of `vmtruncate_range` is
for a range whose flag is set then. -/
def Purges (s t : State) (calls : List Truncate) : Prop :=
  ∃ g, Marks g ∧ t.areas = s.areas.map (markArea g) ∧
    ∀ c ∈ calls, ∃ r ∈ s.ranges, c = truncateOf r ∧ (g r).purged = true

lemma Purges.refl (s : State) : Purges s s [] := by
  refine ⟨id, ⟨fun _ => rfl, fun _ => rfl, fun _ => rfl, fun _ => rfl, fun _ hr => hr⟩, ?_, ?_⟩
  · refine (map_id _).symm.trans (map_congr_left fun a _ => ?_)
    show a = { a with unpinned := a.unpinned.map id }
    rw [map_id]
  · intro c hc
    cases hc

lemma Purges.cons (hr : r ∈ s.ranges)
    (h : Purges (Ashmem.purge s r) t calls) : Purges s t (truncateOf r :: calls) := by
  obtain ⟨g, hg, hmap, hcalls⟩ := h
  have hset := marks_setPurged r.id
  have hself : (setPurged r.id r).purged = true := by
    unfold setPurged
    rw [if_pos rfl]
  refine ⟨g ∘ setPurged r.id, ⟨?_, ?_, ?_, ?_, ?_⟩, ?_, ?_⟩
  · exact fun x => (hg.id _).trans (hset.id x)
  · exact fun x => (hg.asma _).trans (hset.asma x)
  · exact fun x => (hg.pgstart _).trans (hset.pgstart x)
  · exact fun x => (hg.pgend _).trans (hset.pgend x)
  · exact fun x hx => hg.purged _ (hset.purged x hx)
  · rw [hmap, show (Ashmem.purge s r).areas = s.areas.map (markArea (setPurged r.id)) from rfl,
      map_map]
    refine map_congr_left fun a _ => ?_
    show markArea g (markArea (setPurged r.id) a) = markArea (g ∘ setPurged r.id) a
    unfold markArea
    rw [map_map]
  intro c hc
  rcases mem_cons.mp hc with rfl | hc
  · exact ⟨r, hr, rfl, hg.purged _ hself⟩
  obtain ⟨x, hx, rfl, hxflag⟩ := hcalls c hc
  rw [purge_ranges] at hx
  obtain ⟨y, hy, rfl⟩ := mem_map.mp hx
  refine ⟨y, hy, ?_, hxflag⟩
  unfold truncateOf
  rw [hset.asma, hset.pgstart, hset.pgend]

lemma shrinkLoop_spec (h : Consistent s) (nrToScan : Nat) {ids : List Nat}
    (hids : s.lru.ranges = ids) :
    Consistent (shrinkLoop ids nrToScan s).1 ∧
      Purges s (shrinkLoop ids nrToScan s).1 (shrinkLoop ids nrToScan s).2 := by
  induction ids generalizing s nrToScan with
  | nil => exact ⟨h, Purges.refl s⟩
  | cons id ids ih =>
    obtain ⟨r, hfind, hr, hid, hflag⟩ := h.find (by rw [hids]; exact mem_cons_self)
    have hpurge := h.purge hr hflag
    rw [shrinkLoop, hfind]
    dsimp only
    split
    · exact ⟨hpurge, Purges.cons hr (Purges.refl _)⟩
    -- The range was the first one of the lru list, so the rest of the loop is over the new list.
    have hrest : (Ashmem.purge s r).lru.ranges = ids := by
      show s.lru.ranges.erase r.id = ids
      rw [hids, hid, erase_cons_head]
    obtain ⟨hcons, hpurges⟩ := ih hpurge (wsub nrToScan (rangeSize r)) hrest
    exact ⟨hcons, Purges.cons hr hpurges⟩

lemma ashmemShrink_spec (h : Consistent s) (nrToScan : Nat) (gfpFs : Bool) :
    Consistent (ashmemShrink s nrToScan gfpFs).2.1 ∧
      Purges s (ashmemShrink s nrToScan gfpFs).2.1 (ashmemShrink s nrToScan gfpFs).2.2 := by
  unfold ashmemShrink
  split
  · exact ⟨h, Purges.refl s⟩
  split
  · exact ⟨h, Purges.refl s⟩
  · exact shrinkLoop_spec h nrToScan rfl

lemma mem_of_truncateOf (h : r.pgend + 1 < 2 ^ 20) (horder : r.pgstart ≤ r.pgend + 1)
    (hstart : (truncateOf r).start ≤ p * pageSize)
    (hstop : p * pageSize + (pageSize - 1) ≤ (truncateOf r).stop) :
    p ∈ Set.Icc r.pgstart r.pgend := by
  unfold truncateOf wsub pageSize wordSize at *
  dsimp only at hstart hstop
  constructor <;> omega

lemma Purges.truncated (h : Consistent s) (hpurges : Purges s t calls) (ha : t.areas[i]? = some a) :
    ∃ b, s.areas[i]? = some b ∧ (Nonempty b.unpinned → Nonempty a.unpinned) ∧
      pages (fun f => f = true) b.unpinned ⊆ pages (fun f => f = true) a.unpinned ∧
      truncatedPages calls i ⊆ pages (fun f => f = true) a.unpinned := by
  obtain ⟨g, hg, hmap, hcalls⟩ := hpurges
  rw [hmap, getElem?_map] at ha
  obtain ⟨b, hb, rfl⟩ := Option.map_eq_some_iff.mp ha
  refine ⟨b, hb, fun hne => hne.marked hg, purged_subset_marked hg, ?_⟩
  rintro p ⟨c, hc, rfl, hstart, hstop⟩
  obtain ⟨r, hr, rfl, hflag⟩ := hcalls c hc
  obtain ⟨b', hb', hrb⟩ := h.exists_area hr
  cases hb.symm.trans hb'
  have hsound := h.areas _ b hb
  have hlt := Ashmem.areaPages_lt (h.size b (mem_of_getElem? hb))
  have hbound := hsound.bound r hrb
  have hp := mem_of_truncateOf (by omega) (hsound.order r hrb) hstart hstop
  refine ⟨g r, mem_map_of_mem hrb, hflag, ?_⟩
  rwa [hg.pgstart, hg.pgend]

end

/-! ### Runs -/

lemma Initial.consistent {r : Run} (h : Initial r) : Consistent r.state := by
  have hranges : r.state.ranges = [] := flatMap_eq_nil_iff.mpr h.pinned
  refine ⟨?_, h.size, h.file, ?_⟩
  · intro i a ha
    rw [h.pinned a (mem_of_getElem? ha)]
    exact ⟨List.Pairwise.nil, forall_mem_nil _, forall_mem_nil _, forall_mem_nil _⟩
  rw [hranges]
  refine ⟨?_, ?_, nodup_nil, forall_mem_nil _⟩
  · rw [h.ranges]
    exact List.Perm.refl _
  · rw [h.count]
    rfl

lemma Consistent.step {r t : Run} (h : Consistent r.state) (hstep : Step Allowed c r t) :
    Consistent t.state := by
  cases hstep with
  | pinUnpin cmd pin hallocs harea => exact h.pinUnpin harea
  | shrink nrToScan gfpFs => exact (ashmemShrink_spec h nrToScan gfpFs).1

lemma consistent_of_reach {r : Run} (h : Reach Initial (Step Allowed) r) : Consistent r.state :=
  Reach.invariant (fun r => Consistent r.state) (fun _ hr => hr.consistent)
    (fun _ _ _ hr hstep => hr.step hstep) h

/-! ### No range is empty if no empty interval is unpinned -/

def AllNonempty (s : State) : Prop := ∀ a ∈ s.areas, Nonempty a.unpinned

lemma AllNonempty.step {r t : Run} (hcons : Consistent r.state) (h : AllNonempty r.state)
    (hstep : NonemptyStep c r t) : AllNonempty t.state := by
  obtain ⟨hstep, hunpins⟩ := hstep
  cases hstep with
  | @pinUnpin r asma area allocs cmd pin hallocs harea =>
    have hne := h area (mem_of_getElem? harea)
    have hs := hcons.areas asma area harea
    intro a ha
    rcases mem_or_eq_of_mem_set ha with ha | rfl
    · exact h a ha
    rcases ashmemPinUnpin_cases allocs asma area r.state.lru cmd pin with
      ⟨hrun, -⟩ | ⟨pgstart, pgend, hacc, ⟨-, hrun⟩ | ⟨rfl, hrun⟩⟩
    · rw [hrun]
      exact hne
    · rw [hrun]
      have hbounds := hcons.bounds harea hacc
      exact nonempty_pinLoop hs (by omega) hne
    · rw [hrun]
      exact nonempty_unpinLoop hs hne (hunpins asma area pin pgstart pgend rfl harea hacc)
  | shrink nrToScan gfpFs =>
    intro a ha
    obtain ⟨i, hi⟩ := mem_iff_getElem?.mp ha
    obtain ⟨b, hb, hmarked, -⟩ := (ashmemShrink_spec hcons nrToScan gfpFs).2.truncated hcons hi
    exact hmarked (h b (mem_of_getElem? hb))

lemma nonempty_of_reach {r : Run} (h : Reach Initial NonemptyStep r) :
    Consistent r.state ∧ AllNonempty r.state := by
  refine Reach.invariant (fun r => Consistent r.state ∧ AllNonempty r.state) ?_ ?_ h
  · intro r hr
    refine ⟨hr.consistent, fun a ha => ?_⟩
    rw [hr.pinned a ha]
    exact forall_mem_nil _
  · rintro c r t ⟨hcons, hne⟩ hstep
    exact ⟨hcons.step hstep.1, hne.step hcons hstep⟩

/-! ### The count of the lru list -/

lemma lruPages_append (xs ys : List Range) : lruPages (xs ++ ys) = lruPages xs + lruPages ys := by
  unfold lruPages onLru
  rw [filter_append, map_append, sum_append_nat]

lemma Sound.lruPages_le {ranges : List Range} (h : Sound n asma ranges) : lruPages ranges ≤ n := by
  induction ranges generalizing n with
  | nil => exact Nat.zero_le n
  | cons r rest ih =>
    have hbelow : Sound r.pgstart asma rest := by
      refine ⟨h.tail.descending, h.tail.order, fun x hx => ?_, h.tail.asma⟩
      exact rel_of_pairwise_cons h.descending hx
    have hrest := ih hbelow
    have hbound := h.bound r mem_cons_self
    have horder := h.order r mem_cons_self
    cases hflag : r.purged with
    | true =>
      rw [lruPages_cons_pos hflag]
      omega
    | false =>
      rw [lruPages_cons_neg hflag]
      unfold pageCount
      omega

lemma Consistent.lruPages_le {s : State} (h : Consistent s) :
    lruPages s.ranges ≤ s.areas.length * (2 ^ 20 - 1) := by
  have hall : ∀ a ∈ s.areas, lruPages a.unpinned ≤ 2 ^ 20 - 1 := by
    intro a ha
    obtain ⟨i, hi⟩ := mem_iff_getElem?.mp ha
    have hle := (h.areas i a hi).lruPages_le
    have hlt := Ashmem.areaPages_lt (h.size a ha)
    omega
  unfold State.ranges
  generalize s.areas = areas at hall
  induction areas with
  | nil => exact Nat.zero_le _
  | cons a rest ih =>
    obtain ⟨ha, hrest⟩ := forall_mem_cons.mp hall
    have := ih hrest
    rw [flatMap_cons, lruPages_append, length_cons]
    omega

/-- After any calls for which there was memory: the ranges of an area are in descending order and do
not overlap, unpinning an interval adds it to the unpinned pages, pinning takes it out, and
`lru_count` is the number of pages in ranges that are not purged. If no empty interval was unpinned,
`ashmem_get_pin_status` is exact. -/
theorem ashmem_of_reach {r : Run} (h : Reach Initial (Step AllocsAll) r) :
    (∀ area ∈ r.state.areas, Descending Range.pgstart Range.pgend area.unpinned ∧
        area.unpinned.Pairwise fun x y =>
          Disjoint (Set.Icc x.pgstart x.pgend) (Set.Icc y.pgstart y.pgend)) ∧
      (∀ allocs asma area pin pgstart pgend, AllocsAll allocs → r.state.areas[asma]? = some area →
        Accepted area pin pgstart pgend →
          ((ashmemPinUnpin allocs asma area r.state.lru .unpin pin).1 = 0 ∧ pages (fun _ => True)
                (ashmemPinUnpin allocs asma area r.state.lru .unpin pin).2.1.unpinned =
              pages (fun _ => True) area.unpinned ∪ Set.Icc pgstart pgend) ∧
          pages (fun _ => True)
              (ashmemPinUnpin allocs asma area r.state.lru .pin pin).2.1.unpinned =
            pages (fun _ => True) area.unpinned \ Set.Icc pgstart pgend) ∧
      (r.state.lru.count = lruPages r.state.ranges % 2 ^ 32 ∧
        (r.state.areas.length ≤ 4096 → r.state.lru.count = lruPages r.state.ranges)) ∧
      (Reach Initial NonemptyStep r → ∀ allocs asma area pin pgstart pgend,
        r.state.areas[asma]? = some area → Accepted area pin pgstart pgend →
          ((ashmemPinUnpin allocs asma area r.state.lru .getPinStatus pin).1 = 0 ↔
            (pages (fun _ => True) area.unpinned ∩ Set.Icc pgstart pgend).Nonempty)) := by
  have hcons := consistent_of_reach h
  refine ⟨?_, ?_, ⟨hcons.accounts.count, ?_⟩, ?_⟩
  · intro area harea
    obtain ⟨i, hi⟩ := mem_iff_getElem?.mp harea
    have hdesc := (hcons.areas i area hi).descending
    exact ⟨hdesc, hdesc.disjoint⟩
  · intro allocs asma area pin pgstart pgend hallocs harea hacc
    have hs := hcons.areas asma area harea
    rw [ashmemPinUnpin_accepted hacc, ashmemPinUnpin_accepted hacc]
    have hbounds := hcons.bounds harea hacc
    exact ⟨pages_unpinLoop hs hallocs, pages_pinLoop hs (by omega) fun x _ => hallocs x⟩
  · have hle := hcons.lruPages_le
    rw [hcons.accounts.count]
    unfold wordSize
    omega
  intro hreach allocs asma area pin pgstart pgend harea hacc
  have hs := hcons.areas asma area harea
  have hne := (nonempty_of_reach hreach).2 area (mem_of_getElem? harea)
  rw [ashmemPinUnpin_accepted hacc]
  have hbounds := hcons.bounds harea hacc
  rw [← statusLoop_iff hs hne (by omega)]
  cases statusLoop pgstart pgend area.unpinned <;> simp

def pinnedRun (pages : Nat) : Run := ⟨⟨[⟨pages * 4096, true, []⟩], ⟨[], 0, 0⟩⟩, fun _ => ∅⟩

lemma initial_pinnedRun (hpos : 0 < n) (hn : n < 2 ^ 20) : Initial (pinnedRun n) := by
  refine ⟨?_, ?_, ?_, rfl, rfl, fun _ => rfl⟩
  · exact forall_mem_singleton.mpr rfl
  · exact forall_mem_singleton.mpr (show n * 4096 ≤ _ by omega)
  · exact forall_mem_singleton.mpr fun _ => show 0 < n * 4096 by omega

lemma unpinLoop_nil {allocs : Range → Bool} {lru lru' : Lru} {purged : Bool}
    (h : rangeAlloc allocs lru asma purged pgstart pgend = (some r, lru')) :
    unpinLoop allocs asma [] lru pgstart pgend purged = (0, [r], lru') := by
  rw [unpinLoop]
  simp [unpinPass, h]

/-- An area of `n` pages from which the first call unpins an interval. -/
def unpinnedRun (n : Nat) (pin : Option (BitVec 32 × BitVec 32)) : Run :=
  (pinnedRun n).pinUnpin (fun _ => true) 0 ⟨n * 4096, true, []⟩ .unpin pin

lemma unpinnedRun_reach (pin : Option (BitVec 32 × BitVec 32)) (hpos : 0 < n) (hn : n < 2 ^ 20) :
    Reach Initial (Step AllocsAll) (unpinnedRun n pin) :=
  Reach.next (.pinUnpin 0 .unpin pin) (Reach.start (initial_pinnedRun hpos hn))
    (Step.pinUnpin .unpin pin (fun _ => rfl) rfl)

lemma unpinnedRun_areas {pin : Option (BitVec 32 × BitVec 32)}
    (h : Accepted ⟨n * 4096, true, []⟩ pin pgstart pgend) :
    (unpinnedRun n pin).state.areas[0]? =
      some ⟨n * 4096, true, [⟨0, 0, pgstart, pgend, false⟩]⟩ := by
  unfold unpinnedRun Run.pinUnpin
  rw [ashmemPinUnpin_accepted h, unpinLoop_nil rfl]
  rfl

/-- The pages 1 to 3 are unpinned. Then 3 to 5 are unpinned as well, or 2 is pinned again. -/
theorem eightPages_unpin_pin :
    pages (fun _ => True) (ashmemPinUnpin (fun _ => true) 0 ⟨8 * 4096, true, [⟨0, 0, 1, 3, false⟩]⟩
        (unpinnedRun 8 (some (4096, 12288))).state.lru .unpin (some (12288, 12288))).2.1.unpinned =
      pages (fun _ => True) [⟨0, 0, 1, 3, false⟩] ∪ Set.Icc 3 5 ∧
    pages (fun _ => True) (ashmemPinUnpin (fun _ => true) 0 ⟨8 * 4096, true, [⟨0, 0, 1, 3, false⟩]⟩
        (unpinnedRun 8 (some (4096, 12288))).state.lru .pin (some (8192, 4096))).2.1.unpinned =
      pages (fun _ => True) [⟨0, 0, 1, 3, false⟩] \ Set.Icc 2 2 := by
  have harea := unpinnedRun_areas (n := 8) ⟨rfl, 4096, 12288, rfl, rfl⟩
  have hreach := unpinnedRun_reach (some (4096, 12288)) (by decide : 0 < 8) (by decide)
  have hcalls := (ashmem_of_reach hreach).2.1
  exact ⟨(hcalls _ 0 _ _ 3 5 (fun _ => rfl) harea ⟨rfl, 12288, 12288, rfl, rfl⟩).1.2,
    (hcalls _ 0 _ _ 2 2 (fun _ => rfl) harea ⟨rfl, 8192, 4096, rfl, rfl⟩).2⟩

/-- The driver accepts to unpin no page at the end of an area of one page, and then reports this
page as unpinned. -/
theorem empty_range_unpins : Reach Initial (Step AllocsAll) (unpinnedRun 1 (some (4096, 0))) ∧
      (unpinnedRun 1 (some (4096, 0))).state.areas[0]? =
        some ⟨4096, true, [⟨0, 0, 1, 0, false⟩]⟩ ∧
      Accepted ⟨4096, true, [⟨0, 0, 1, 0, false⟩]⟩ (some (0, 4096)) 0 0 ∧
      (ashmemPinUnpin (fun _ => true) 0 ⟨4096, true, [⟨0, 0, 1, 0, false⟩]⟩
        (unpinnedRun 1 (some (4096, 0))).state.lru .getPinStatus (some (0, 4096))).1 = 0 ∧
      ¬ (pages (fun _ => True) [⟨0, 0, 1, 0, false⟩] ∩ Set.Icc 0 0).Nonempty := by
  have haccepted : Accepted ⟨4096, true, [⟨0, 0, 1, 0, false⟩]⟩ (some (0, 4096)) 0 0 :=
    ⟨rfl, 0, 4096, rfl, rfl⟩
  refine ⟨unpinnedRun_reach _ (by decide : 0 < 1) (by decide),
    unpinnedRun_areas (n := 1) ⟨rfl, 4096, 0, rfl, rfl⟩, haccepted, ?_, ?_⟩
  · rfl
  · rintro ⟨p, ⟨r, hr, -, hlo, hhi⟩, -⟩
    rw [mem_singleton.mp hr] at hlo hhi
    exact absurd (le_trans hlo hhi) (by decide)

/-! ### What the driver knows of purged pages -/

def KnowsPurged (r : Run) : Prop :=
  ∀ i a, r.state.areas[i]? = some a → r.purged i ⊆ pages (fun f => f = true) a.unpinned

lemma KnowsPurged.step {r t : Run} (hcons : Consistent r.state) (h : KnowsPurged r)
    (hstep : Step AllocsPurged c r t) : KnowsPurged t := by
  cases hstep with
  | @pinUnpin r asma area allocs cmd pin hallocs harea =>
    intro i a ha p hp
    have ha' : (r.state.areas.set asma
      (ashmemPinUnpin allocs asma area r.state.lru cmd pin).2.1)[i]? = some a := ha
    rw [getElem?_set] at ha'
    by_cases hi : asma = i
    · subst hi
      have hold : p ∈ r.purged asma \ pinnedPages area cmd pin := by
        have hpur : p ∈ update r.purged asma (r.purged asma \ pinnedPages area cmd pin) asma := hp
        rwa [update_self] at hpur
      have hs := hcons.areas asma area harea
      have hflag := h asma area harea hold.1
      rw [if_pos rfl] at ha'
      split at ha'
      · cases ha'
        rcases ashmemPinUnpin_cases allocs asma area r.state.lru cmd pin with
          ⟨hrun, -⟩ | ⟨pgstart, pgend, hacc, ⟨rfl, hrun⟩ | ⟨-, hrun⟩⟩
        · rw [hrun]
          exact hflag
        · rw [hrun]
          have hout : p ∉ Set.Icc pgstart pgend := fun hin =>
            hold.2 ⟨rfl, pgstart, pgend, hacc, hin⟩
          have hbounds := hcons.bounds harea hacc
          rw [pages_pinLoop hs (by omega) fun x hx => hallocs x hx]
          exact ⟨hflag, hout⟩
        · rw [hrun]
          exact purged_unpinLoop hs (fun x hx => hallocs x hx) hflag
      · cases ha'
    · rw [if_neg hi] at ha'
      have hpur : p ∈ update r.purged asma (r.purged asma \ pinnedPages area cmd pin) i := hp
      rw [update_of_ne (Ne.symm hi)] at hpur
      exact h i a ha' hpur
  | shrink nrToScan gfpFs =>
    intro i a ha p hp
    obtain ⟨b, hb, -, hkeeps, htruncated⟩ :=
      (ashmemShrink_spec hcons nrToScan gfpFs).2.truncated hcons ha
    rcases hp with hp | hp
    · exact hkeeps (h i b hb hp)
    · exact htruncated hp

/-- If no allocation of a purged range fails, `ashmem_pin` reports a page that was purged since it
was last pinned. -/
theorem pin_reports_purged {r : Run} (h : Reach Initial (Step AllocsPurged) r)
    {allocs : Range → Bool}
    {asma : Nat} {area : Area} {pin : Option (BitVec 32 × BitVec 32)} {pgstart pgend p : Nat}
    (harea : r.state.areas[asma]? = some area) (hacc : Accepted area pin pgstart pgend)
    (hp : p ∈ Set.Icc pgstart pgend) (hpurged : p ∈ r.purged asma) :
    (ashmemPinUnpin allocs asma area r.state.lru .pin pin).1 = 1 := by
  have hinv : Consistent r.state ∧ KnowsPurged r := by
    refine Reach.invariant (fun r => Consistent r.state ∧ KnowsPurged r) ?_ ?_ h
    · intro r hr
      refine ⟨hr.consistent, fun i a _ p hp => ?_⟩
      rw [hr.purged i] at hp
      cases hp
    · rintro c r t ⟨hcons, hknows⟩ hstep
      exact ⟨hcons.step hstep, hknows.step hcons hstep⟩
  obtain ⟨hcons, hknows⟩ := hinv
  rw [ashmemPinUnpin_accepted hacc]
  exact if_pos (pinLoop_purged (hcons.areas asma area harea) hp (hknows asma area harea hpurged))

/-- An area of three pages: all of them are unpinned and then purged. -/
def allUnpinned : Run :=
  (pinnedRun 3).pinUnpin (fun _ => true) 0 ⟨12288, true, []⟩ .unpin (some (0, 0))

def allPurged : Run := allUnpinned.shrink 1 true

/-- And then the page in the middle is pinned, with no memory for a new range. -/
def middlePinned : Run :=
  allPurged.pinUnpin (fun _ => false) 0 ⟨12288, true, [⟨0, 0, 0, 2, true⟩]⟩ .pin (some (4096, 4096))

lemma allUnpinned_state : allUnpinned.state =
    ⟨[⟨12288, true, [⟨0, 0, 0, 2, false⟩]⟩], ⟨[0], 3, 1⟩⟩ := by
  have haccepted : Accepted ⟨12288, true, []⟩ (some (0, 0)) 0 2 := ⟨rfl, 0, 0, rfl, rfl⟩
  unfold allUnpinned Run.pinUnpin
  rw [ashmemPinUnpin_accepted haccepted, unpinLoop_nil rfl]
  rfl

lemma allPurged_state : allPurged.state = ⟨[⟨12288, true, [⟨0, 0, 0, 2, true⟩]⟩], ⟨[], 0, 1⟩⟩ := by
  unfold allPurged Run.shrink
  rw [allUnpinned_state]
  decide

lemma allPurged_purged (hp : p ≤ 2) : p ∈ allPurged.purged 0 := by
  refine .inr ⟨⟨0, 0, 12287⟩, ?_, rfl, Nat.zero_le _, ?_⟩
  · rw [allUnpinned_state]
    decide
  · show p * 4096 + 4095 ≤ 12287
    omega

lemma reach_allPurged (h : Allowed fun _ => true) : Reach Initial (Step Allowed) allPurged :=
  Reach.next (.shrink 1 true) (Reach.next (.pinUnpin 0 .unpin (some (0, 0)))
      (Reach.start (initial_pinnedRun (by decide : 0 < 3) (by decide)))
      (Step.pinUnpin .unpin (some (0, 0)) h rfl))
    (Step.shrink 1 true)

theorem allPurged_reported :
    (ashmemPinUnpin (fun _ => false) 0 ⟨12288, true, [⟨0, 0, 0, 2, true⟩]⟩ allPurged.state.lru .pin
      (some (4096, 4096))).1 = 1 :=
  pin_reports_purged (reach_allPurged fun _ _ => rfl) (by rw [allPurged_state]; rfl)
    ⟨rfl, 4096, 4096, rfl, rfl⟩ (show 1 ∈ Set.Icc 1 1 from ⟨le_refl 1, le_refl 1⟩)
    (allPurged_purged (by decide))

/-- There was no memory for a range of the last page alone, which was purged. So `ashmem_pin`
returns `ASHMEM_NOT_PURGED` for it. -/
theorem purged_page_forgotten : Reach Initial (Step fun _ => True) middlePinned ∧
      middlePinned.state.areas[0]? = some ⟨12288, true, [⟨0, 0, 0, 0, true⟩]⟩ ∧
      Accepted ⟨12288, true, [⟨0, 0, 0, 0, true⟩]⟩ (some (8192, 4096)) 2 2 ∧
      2 ∈ middlePinned.purged 0 ∧
      (ashmemPinUnpin (fun _ => true) 0 ⟨12288, true, [⟨0, 0, 0, 0, true⟩]⟩
        middlePinned.state.lru .pin (some (8192, 4096))).1 = 0 := by
  have hlast : Accepted ⟨12288, true, [⟨0, 0, 0, 0, true⟩]⟩ (some (8192, 4096)) 2 2 :=
    ⟨rfl, 8192, 4096, rfl, rfl⟩
  refine ⟨?_, ?_, hlast, ?_, ?_⟩
  · exact Reach.next (.pinUnpin 0 .pin (some (4096, 4096))) (reach_allPurged trivial)
      (Step.pinUnpin .pin (some (4096, 4096)) trivial (by rw [allPurged_state]; rfl))
  · unfold middlePinned Run.pinUnpin
    rw [allPurged_state]
    rfl
  · refine ⟨allPurged_purged (by decide), ?_⟩
    rintro ⟨-, pgstart, pgend, ⟨-, offset, len, hpin, hargs⟩, hlo, hhi⟩
    cases hpin
    cases hargs
    exact absurd hhi (by decide)
  · rfl

end Wm8850.Ashmem
