import Wm8850.Ashmem.Area

/-! # The lru list and its count

`Accounts lru ranges`: the lru list has exactly the ranges that are not purged, and `lru_count` is
the number of their pages. The order of the ranges does not matter, so each step of the loops works
at the front. -/

namespace Wm8850.Ashmem

open Lib List

def pageCount (r : Range) : Nat := r.pgend + 1 - r.pgstart

def onLru (ranges : List Range) : List Range := ranges.filter fun r => !r.purged

/-- The pages of the ranges that can be purged. -/
def lruPages (ranges : List Range) : Nat := ((onLru ranges).map pageCount).sum

structure Accounts (lru : Lru) (ranges : List Range) : Prop where
  list : lru.ranges.Perm ((onLru ranges).map Range.id)
  count : lru.count = lruPages ranges % wordSize
  ids : (ranges.map Range.id).Nodup
  fresh : ∀ r ∈ ranges, r.id < lru.fresh

def InWord (r : Range) : Prop := r.pgstart ≤ r.pgend + 1 ∧ r.pgend + 1 < wordSize

variable {start stop : Nat} {purged : Bool}

lemma rangeSize_eq {r : Range} (h : InWord r) : rangeSize r = pageCount r := by
  obtain ⟨horder, hbound⟩ := h
  unfold rangeSize pageCount wadd wsub wordSize at *
  omega

section
variable {lru : Lru} {r : Range} {rs rs' : List Range}

lemma onLru_cons_pos (h : r.purged = true) : onLru (r :: rs) = onLru rs :=
  filter_cons_of_neg (by simp [h])

lemma onLru_cons_neg (h : r.purged = false) : onLru (r :: rs) = r :: onLru rs :=
  filter_cons_of_pos (by simp [h])

lemma lruPages_cons_pos (h : r.purged = true) : lruPages (r :: rs) = lruPages rs := by
  unfold lruPages
  rw [onLru_cons_pos h]

lemma lruPages_cons_neg (h : r.purged = false) :
    lruPages (r :: rs) = pageCount r + lruPages rs := by
  unfold lruPages
  rw [onLru_cons_neg h, map_cons, sum_cons]

lemma Accounts.perm (h : Accounts lru rs) (hperm : rs.Perm rs') : Accounts lru rs' where
  list := h.list.trans ((hperm.filter _).map _)
  count := by rw [h.count, lruPages, lruPages, onLru, onLru, ((hperm.filter _).map _).sum_nat]
  ids := (hperm.map _).nodup_iff.mp h.ids
  fresh := fun x hx => h.fresh x (hperm.mem_iff.mpr hx)

lemma wsub_add_mod {a b c : Nat} (hbc : c ≤ b) :
    wsub ((b + a) % wordSize) c = (b - c + a) % wordSize := by
  unfold wsub wordSize at *
  omega

lemma wadd_mod (a b : Nat) : wadd (a % wordSize) b = (b + a) % wordSize := by
  unfold wadd
  rw [Nat.mod_add_mod, Nat.add_comm]

lemma pageCount_lt (h : InWord r) : pageCount r < wordSize := by
  obtain ⟨-, hbound⟩ := h
  unfold pageCount
  omega

section
variable (h : Accounts lru (r :: rs))
include h

lemma Accounts.lruDel (hflag : r.purged = false) (hr : InWord r) :
    (lruDel lru r).ranges.Perm ((onLru rs).map Range.id) ∧
      (lruDel lru r).count = lruPages rs % wordSize := by
  constructor
  · have hids := h.list.erase r.id
    rw [onLru_cons_neg hflag, map_cons, erase_cons_head] at hids
    exact hids
  · show wsub lru.count (rangeSize r) = _
    rw [h.count, lruPages_cons_neg hflag, rangeSize_eq hr,
      wsub_add_mod (Nat.le_refl _), Nat.sub_self, Nat.zero_add]

lemma Accounts.tail : (rs.map Range.id).Nodup ∧ ∀ x ∈ rs, x.id < lru.fresh :=
  ⟨(nodup_cons.mp h.ids).2, fun x hx => h.fresh x (mem_cons_of_mem r hx)⟩

lemma Accounts.rangeDel (hr : InWord r) : Accounts (rangeDel lru r) rs := by
  obtain ⟨hids, hfresh⟩ := h.tail
  cases hflag : r.purged with
  | true =>
    have hdel : Ashmem.rangeDel lru r = lru := if_pos hflag
    rw [hdel]
    refine ⟨?_, ?_, hids, hfresh⟩
    · have hranges := h.list
      rwa [onLru_cons_pos hflag] at hranges
    · rw [h.count, lruPages_cons_pos hflag]
  | false =>
    have hdel : Ashmem.rangeDel lru r = Ashmem.lruDel lru r := if_neg (by simp [hflag])
    rw [hdel]
    obtain ⟨hranges, hcount⟩ := h.lruDel hflag hr
    exact ⟨hranges, hcount, hids, hfresh⟩

lemma Accounts.rangeShrink (hr : InWord r)
    (hstart : r.pgstart ≤ start) (hstop : stop ≤ r.pgend) (horder : start ≤ stop + 1) :
    Accounts (rangeShrink lru r start stop).2 ((rangeShrink lru r start stop).1 :: rs) := by
  obtain ⟨cut, hcut⟩ : ∃ cut : Range, cut = { r with pgstart := start, pgend := stop } := ⟨_, rfl⟩
  have hword : InWord cut := by
    rw [hcut]
    exact ⟨horder, by have := hr.2; show stop + 1 < wordSize; omega⟩
  have hpages : pageCount cut ≤ pageCount r := by
    rw [hcut]
    unfold pageCount
    dsimp only
    omega
  have hid : cut.id = r.id := by rw [hcut]
  have hids : ((cut :: rs).map Range.id).Nodup := by
    rw [map_cons, hid]
    exact h.ids
  have hfresh : ∀ x ∈ cut :: rs, x.id < lru.fresh := by
    rw [forall_mem_cons, hid]
    exact forall_mem_cons.mp h.fresh
  cases hflag : r.purged with
  | true =>
    have hcutflag : cut.purged = true := by rw [hcut]; exact hflag
    have hrun : Ashmem.rangeShrink lru r start stop = (cut, lru) := by
      rw [hcut]
      exact congrArg _ (if_pos hflag)
    rw [hrun]
    refine ⟨?_, ?_, hids, hfresh⟩
    · have hranges := h.list
      rwa [onLru_cons_pos hflag, ← onLru_cons_pos hcutflag] at hranges
    · rw [h.count, lruPages_cons_pos hflag, lruPages_cons_pos hcutflag]
  | false =>
    have hcutflag : cut.purged = false := by rw [hcut]; exact hflag
    have hrun : Ashmem.rangeShrink lru r start stop =
        (cut, { lru with count := wsub lru.count (wsub (rangeSize r) (rangeSize cut)) }) := by
      rw [hcut]
      exact congrArg _ (if_neg (by simp [hflag]))
    rw [hrun]
    refine ⟨?_, ?_, hids, hfresh⟩
    · have hranges := h.list
      rw [onLru_cons_neg hflag, map_cons, ← hid] at hranges
      rwa [onLru_cons_neg hcutflag]
    · have hlt := pageCount_lt hr
      rw [h.count, lruPages_cons_neg hflag, lruPages_cons_neg hcutflag, rangeSize_eq hr,
        rangeSize_eq hword, wsub_of_le hpages hlt, wsub_add_mod (by omega),
        show pageCount r - (pageCount r - pageCount cut) = pageCount cut by omega]

end

lemma Accounts.rangeAlloc (h : Accounts lru rs) (hid : r.id = lru.fresh) (hr : InWord r) :
    Accounts (if r.purged then { lru with fresh := lru.fresh + 1 }
      else lruAdd { lru with fresh := lru.fresh + 1 } r) (r :: rs) := by
  have hnotin : r.id ∉ rs.map Range.id := by
    intro hmem
    obtain ⟨x, hx, hxid⟩ := mem_map.mp hmem
    have := h.fresh x hx
    omega
  have hids : ((r :: rs).map Range.id).Nodup := nodup_cons.mpr ⟨hnotin, h.ids⟩
  have hfresh : ∀ x ∈ r :: rs, x.id < lru.fresh + 1 := by
    refine forall_mem_cons.mpr ⟨by omega, fun x hx => ?_⟩
    have := h.fresh x hx
    omega
  cases hflag : r.purged with
  | true =>
    refine ⟨?_, ?_, hids, hfresh⟩
    · rw [onLru_cons_pos hflag]
      exact h.list
    · rw [lruPages_cons_pos hflag]
      exact h.count
  | false =>
    refine ⟨?_, ?_, hids, hfresh⟩
    · rw [onLru_cons_neg hflag]
      exact (perm_append_singleton _ _).trans (h.list.cons _)
    · show wadd lru.count (rangeSize r) = _
      rw [h.count, lruPages_cons_neg hflag, rangeSize_eq hr, wadd_mod]

lemma rangeAlloc_cases (allocs : Range → Bool) (lru : Lru) (asma : Nat) (purged : Bool)
    (start stop : Nat) : ∃ r : Range, r = ⟨lru.fresh, asma, start, stop, purged⟩ ∧
      ((∃ lru', allocs r = true ∧ rangeAlloc allocs lru asma purged start stop = (some r, lru') ∧
          ∀ rs, InWord r → Accounts lru rs → Accounts lru' (r :: rs)) ∨
        allocs r = false ∧ rangeAlloc allocs lru asma purged start stop = (none, lru)) := by
  refine ⟨_, rfl, ?_⟩
  cases h : allocs ⟨lru.fresh, asma, start, stop, purged⟩ with
  | true => exact .inl ⟨_, rfl, if_pos h, fun _ hr ha => ha.rangeAlloc rfl hr⟩
  | false => exact .inr ⟨rfl, if_neg (by simp [h])⟩

lemma Accounts.purge (h : Accounts lru (r :: rs)) (hflag : r.purged = false) (hr : InWord r) :
    Accounts (Ashmem.lruDel lru r) ({ r with purged := true } :: rs) := by
  obtain ⟨hranges, hcount⟩ := h.lruDel hflag hr
  obtain ⟨hfresh, hrest⟩ := forall_mem_cons.mp h.fresh
  exact ⟨hranges, hcount, h.ids, forall_mem_cons.mpr ⟨hfresh, hrest⟩⟩

end

end Wm8850.Ashmem
