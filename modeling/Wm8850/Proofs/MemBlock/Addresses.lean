import Wm8850.Proofs.MemBlock.Runs

/-! # Physical and virtual addresses of a block

`mb_find_mb` compares an address with the end of an area and of a block, which are pointers.
`Mbah.Mapped` says that no area reaches the end of the address space, where they would wrap; then
the block that contains an address is found in both directions. -/

namespace Wm8850.MemBlock

open Lib List

variable {h : Mbah} {a : Mba} {m : Mb} {t : MbFind} {addr : Nat}

def Mba.range (a : Mba) (t : MbFind) : Nat × Nat :=
  (a.searchAddr t, a.searchAddr t + a.pages * pageSize)

/-- The areas are disjoint, physically and virtually. What the page allocator and `ioremap` hand out
lies behind the address zero and ends below the end of the address space: there is no memory at the
top of the physical addresses, and mappings end at `VMALLOC_END`, which is `0xFE000000`. -/
structure Mbah.Mapped (h : Mbah) : Prop where
  inside : ∀ a ∈ h.mbaList, ∀ t, 0 < a.searchAddr t ∧ a.searchAddr t + a.pages * pageSize < wordSize
  apart : ∀ t, h.mbaList.Pairwise fun a b => Apart (a.range t) (b.range t)

/-- The address is inside the block. -/
def Mb.Contains (m : Mb) (t : MbFind) (addr : Nat) : Prop :=
  m.searchAddr t ≤ addr ∧ addr < m.searchAddr t + m.size

lemma Mba.Layout.searchAddr_eq (hlay : a.Layout) (hm : m ∈ a.mbList)
    (hin : a.searchAddr .virt + a.pages * pageSize < wordSize) (t : MbFind) :
    m.searchAddr t = a.searchAddr t + (m.phys - a.phys) ∧ a.phys ≤ m.phys ∧
      m.phys - a.phys + m.size ≤ a.pages * pageSize := by
  obtain ⟨hphys, hstop⟩ := hlay.mem_addr hm
  obtain ⟨hlo, -, hhi⟩ := hlay.packed.mem_bounds hm
  have hle : a.phys ≤ m.phys := by
    rw [hlay.physEq, hphys]
    exact Nat.mul_le_mul_right _ hlo
  have hend : m.phys + m.size ≤ a.phys + a.pages * pageSize := by
    rw [hstop, hlay.physEq, ← add_mul, ← hlay.span]
    exact Nat.mul_le_mul_right _ hhi
  refine ⟨?_, hle, by omega⟩
  cases t with
  | phys => exact (Nat.add_sub_cancel' hle).symm
  | virt =>
    show m.virt = a.virt + (m.phys - a.phys)
    have hlt : a.virt + a.pages * pageSize < wordSize := hin
    rw [(hlay.placed m hm).2.2, wadd_of_lt (by omega)]

section
variable (hg : h.Layout) (hmap : h.Mapped)
include hg hmap

lemma Mbah.Mapped.contains_unique {b : Mba} {m' : Mb} (ha : a ∈ h.mbaList) (hm : m ∈ a.mbList)
    (hb : b ∈ h.mbaList) (hm' : m' ∈ b.mbList) (hc : m.Contains t addr) (hc' : m'.Contains t addr) :
    m = m' := by
  obtain ⟨heq, hle, hend⟩ := (hg.areas.layout a ha).searchAddr_eq hm (hmap.inside a ha .virt).2 t
  obtain ⟨heq', hle', hend'⟩ :=
    (hg.areas.layout b hb).searchAddr_eq hm' (hmap.inside b hb .virt).2 t
  unfold Mb.Contains at hc hc'
  by_cases hab : a = b
  · subst hab
    by_contra hne
    have hpair : a.mbList.Pairwise fun x y => Apart (x.phys, x.phys + x.size)
        (y.phys, y.phys + y.size) :=
      (hg.areas.layout a ha).pairwise_addr.imp Or.inl
    have hap := apart_of_mem hpair hm hm' hne
    simp only [Apart] at hap
    omega
  · have hap := apart_of_mem (hmap.apart t) ha hb hab
    simp only [Apart, Mba.range] at hap
    omega

lemma mbFindMb_of_contains (hm : m ∈ h.mbs) (hc : m.Contains t addr) :
    mbFindMb h addr t = some m := by
  obtain ⟨a, ha, hm⟩ := mem_flatMap.mp hm
  obtain ⟨hpos, hlt⟩ := hmap.inside a ha t
  obtain ⟨heq, -, hend⟩ := (hg.areas.layout a ha).searchAddr_eq hm (hmap.inside a ha .virt).2 t
  have htest : ∀ b ∈ h.mbaList, ∀ m' ∈ b.mbList, (decide (m'.searchAddr t ≤ addr) &&
      decide (addr < wadd (m'.searchAddr t) m'.size)) = true ↔ m'.Contains t addr := by
    intro b hb m' hm'
    obtain ⟨heq', -, hend'⟩ := (hg.areas.layout b hb).searchAddr_eq hm' (hmap.inside b hb .virt).2 t
    have := (hmap.inside b hb t).2
    rw [wadd_of_lt (by omega), Bool.and_eq_true, decide_eq_true_eq, decide_eq_true_eq]
    rfl
  have hrange : a.outOfRange addr t = false := by
    unfold Mba.outOfRange
    obtain ⟨hlo, hhi⟩ := hc
    simp only [wadd_of_lt hlt, Bool.or_eq_false_iff, decide_eq_false_iff_not]
    omega
  unfold mbFindMb
  rw [if_neg (by have := hc.1; omega)]
  cases hfind : h.mbaList.findSome? _ with
  | none =>
    have hnone := List.findSome?_eq_none_iff.mp hfind a ha
    rw [if_neg (by simp [hrange])] at hnone
    exact absurd ((htest a ha m hm).mpr hc) (List.find?_eq_none.mp hnone m hm)
  | some m' =>
    obtain ⟨b, hb, hsome⟩ := exists_of_findSome?_eq_some hfind
    split at hsome
    · cases hsome
    · have hm' := mem_of_find?_eq_some hsome
      have htrue := List.find?_some hsome
      have hc' := (htest b hb m' hm').mp htrue
      rw [hmap.contains_unique hg ha hm hb hm' hc hc']

end

/-- The translations are inverse to each other inside a block, and stay in the block. -/
theorem translations_inverse {cfg : Config} {s : State} (hreach : Reachable cfg s)
    (hmap : s.mbah.Mapped) (hm : m ∈ s.mbah.mbs) :
    (∀ p, m.Contains .phys p → m.Contains .virt (mbDoPhysToVirt s.mbah p) ∧
      mbDoVirtToPhys s.mbah (mbDoPhysToVirt s.mbah p) = p) ∧
    ∀ v, m.Contains .virt v → m.Contains .phys (mbDoVirtToPhys s.mbah v) ∧
      mbDoPhysToVirt s.mbah (mbDoVirtToPhys s.mbah v) = v := by
  have hg := (reachable_wf hreach).layout
  obtain ⟨a, ha, hma⟩ := mem_flatMap.mp hm
  have hlt : ∀ t, m.searchAddr t + m.size < wordSize := by
    intro t
    obtain ⟨heq, -, hend⟩ := (hg.areas.layout a ha).searchAddr_eq hma (hmap.inside a ha .virt).2 t
    have := (hmap.inside a ha t).2
    omega
  have hvirt : m.virt + m.size < wordSize := hlt .virt
  have hphys : m.phys + m.size < wordSize := hlt .phys
  have hto : ∀ p, m.Contains .phys p → mbDoPhysToVirt s.mbah p = m.virt + (p - m.phys) := by
    intro p hc
    have hlo : m.phys ≤ p := hc.1
    have hhi : p < m.phys + m.size := hc.2
    simp only [mbDoPhysToVirt, mbFindMb_of_contains hg hmap hm hc]
    rw [wsub_of_le hlo (by omega), wadd_of_lt (by omega)]
  have hfrom : ∀ v, m.Contains .virt v → mbDoVirtToPhys s.mbah v = m.phys + (v - m.virt) := by
    intro v hc
    have hlo : m.virt ≤ v := hc.1
    have hhi : v < m.virt + m.size := hc.2
    simp only [mbDoVirtToPhys, mbFindMb_of_contains hg hmap hm hc]
    rw [wsub_of_le hlo (by omega), wadd_of_lt (by omega)]
  refine ⟨fun p hc => ?_, fun v hc => ?_⟩
  · have hlo : m.phys ≤ p := hc.1
    have hhi : p < m.phys + m.size := hc.2
    have hin : m.Contains .virt (m.virt + (p - m.phys)) :=
      ⟨Nat.le_add_right _ _, Nat.add_lt_add_left (by omega) _⟩
    rw [hto p hc, hfrom _ hin]
    exact ⟨hin, by omega⟩
  have hlo : m.virt ≤ v := hc.1
  have hhi : v < m.virt + m.size := hc.2
  have hin : m.Contains .phys (m.phys + (v - m.virt)) :=
    ⟨Nat.le_add_right _ _, Nat.add_lt_add_left (by omega) _⟩
  rw [hfrom v hc, hto _ hin]
  exact ⟨hin, by omega⟩

theorem translations_inverse_small : mbDoVirtToPhys (exec smallConfig smallProbed smallAlloc).mbah
      (mbDoPhysToVirt (exec smallConfig smallProbed smallAlloc).mbah 0x100010) = 0x100010 := by
  have hmap : (exec smallConfig smallProbed smallAlloc).mbah.Mapped := by
    refine ⟨fun a ha => ?_, fun t => ?_⟩
    · have hall : ∀ a ∈ (exec smallConfig smallProbed smallAlloc).mbah.mbaList, (0 < a.virt ∧
          a.virt + a.pages * pageSize < wordSize) ∧ 0 < a.phys ∧
            a.phys + a.pages * pageSize < wordSize := by
        decide +kernel
      exact fun t => match t with
        | .virt => (hall a ha).1
        | .phys => (hall a ha).2
    · exact pairwise_singleton _ _
  have hblock : ∃ m ∈ (exec smallConfig smallProbed smallAlloc).mbah.mbs,
      m.phys ≤ 0x100010 ∧ 0x100010 < m.phys + m.size := by decide +kernel
  obtain ⟨m, hm, hc⟩ := hblock
  exact ((translations_inverse reachable_smallAlloc hmap hm).1 0x100010 hc).2

end Wm8850.MemBlock
