import Mathlib.Algebra.Order.Ring.Nat

/-! # Ranges cut into aligned blocks

A block of order `k` has `2 ^ k` units and starts at a multiple of `2 ^ k`. `Cut order i l j` says
that the blocks `l` are such a cut of the units from `i` to `j`, for records with any order
function. -/

namespace Wm8850.Lib

open List Nat

variable {i j : Nat}

variable {α : Type} (order : α → Nat)

/-- The blocks `l` cut the units from `i` to `j`, and each is aligned to its length. -/
def Cut : Nat → List α → Nat → Prop
  | i, [], j => i = j
  | i, a :: l, j => 2 ^ order a ∣ i ∧ Cut (i + 2 ^ order a) l j

def stopAt (i : Nat) (l : List α) : Nat := i + (l.map fun a => 2 ^ order a).sum

def place : Nat → List α → List (Nat × α)
  | _, [] => []
  | i, a :: l => (i, a) :: place (i + 2 ^ order a) l

/-- No two neighbours are free buddies: blocks of one order whose left one starts at a multiple
of twice its length. -/
def Settled (free : α → Bool) : Nat → List α → Prop
  | _, [] => True
  | _, [_] => True
  | i, a :: b :: l =>
    ¬ (free a = true ∧ free b = true ∧ order a = order b ∧ 2 ^ (order a + 1) ∣ i) ∧
      Settled free (i + 2 ^ order a) (b :: l)

/-- Where the free blocks that begin at `i` end. -/
def freeEnd (free : α → Bool) (i : Nat) (l : List α) : Nat :=
  (((place order i l).find? fun p => !free p.2).map Prod.fst).getD (stopAt order i l)

/-- The first block is as large as its position and the free units behind it allow. -/
def Topmost (free : α → Bool) (i : Nat) (a : α) (l : List α) : Prop :=
  ∀ k, 2 ^ k ∣ i → i + 2 ^ k ≤ freeEnd order free i (a :: l) → k ≤ order a

variable {order} {l : List α} {k : Nat} {a : α} {p : Nat × α} {test : α → Bool}

/-! ### Cuts -/

@[simp] lemma stopAt_nil (i : Nat) : stopAt order i [] = i := by simp [stopAt]

@[simp] lemma stopAt_cons (i : Nat) (a : α) (l : List α) :
    stopAt order i (a :: l) = stopAt order (i + 2 ^ order a) l := by
  simp [stopAt, add_assoc]

lemma stopAt_append (i : Nat) (l k : List α) :
    stopAt order i (l ++ k) = stopAt order (stopAt order i l) k := by
  simp [stopAt, add_assoc]

lemma le_stopAt (i : Nat) (l : List α) : i ≤ stopAt order i l := Nat.le_add_right _ _

lemma lt_stopAt (i : Nat) (hl : l ≠ []) : i < stopAt order i l := by
  cases l with
  | nil => exact absurd rfl hl
  | cons a l =>
    rw [stopAt_cons]
    have hpos := Nat.two_pow_pos (order a)
    exact lt_of_lt_of_le (by omega) (le_stopAt (i + 2 ^ order a) l)

lemma Cut.stopAt_eq (h : Cut order i l j) : stopAt order i l = j := by
  induction l generalizing i with
  | nil => simpa [Cut] using h
  | cons a l ih =>
    rw [stopAt_cons]
    exact ih h.2

lemma Cut.le (h : Cut order i l j) : i ≤ j := by
  rw [← h.stopAt_eq]
  exact le_stopAt i l

lemma Cut.length_le (h : Cut order i l j) : l.length + i ≤ j := by
  induction l generalizing i with
  | nil => exact le_of_eq (by simpa [Cut] using h)
  | cons a l ih =>
    have hrest := ih h.2
    have hpos := Nat.two_pow_pos (order a)
    rw [length_cons]
    omega

lemma cut_append {k : List α} : Cut order i (l ++ k) j ↔
      Cut order i l (stopAt order i l) ∧ Cut order (stopAt order i l) k j := by
  induction l generalizing i with
  | nil => simp [Cut]
  | cons a l ih =>
    simp [Cut, ih, and_assoc]

lemma Cut.order_le_of_buddy (hi : 2 ^ (k + 1) ∣ i) (h : Cut order (i + 2 ^ k) (a :: l) j) :
    order a ≤ k := by
  by_contra hlt
  have hdvd : 2 ^ (k + 1) ∣ i + 2 ^ k := dvd_trans (pow_dvd_pow 2 (by omega)) h.1
  have hhalf : 2 ^ (k + 1) ∣ 2 ^ k := (Nat.dvd_add_right hi).mp hdvd
  have hle := le_of_dvd (Nat.two_pow_pos k) hhalf
  omega

/-! ### Blocks and where they start -/

lemma place_append (i : Nat) (l k : List α) :
    place order i (l ++ k) = place order i l ++ place order (stopAt order i l) k := by
  induction l generalizing i with
  | nil => simp [place]
  | cons a l ih =>
    rw [cons_append, place, ih, stopAt_cons]
    rfl

lemma map_snd_place (i : Nat) (l : List α) : (place order i l).map Prod.snd = l := by
  induction l generalizing i with
  | nil => rfl
  | cons a l ih => rw [place, map_cons, ih]

lemma mem_of_mem_place (hp : p ∈ place order i l) : p.2 ∈ l := by
  have hmem := mem_map_of_mem (f := Prod.snd) hp
  rwa [map_snd_place] at hmem

lemma exists_mem_place (i : Nat) (ha : a ∈ l) : ∃ k, (k, a) ∈ place order i l := by
  have hplaced : (place order i l).map Prod.snd = l := map_snd_place i l
  rw [← hplaced] at ha
  obtain ⟨⟨k, b⟩, hb, rfl⟩ := mem_map.mp ha
  exact ⟨k, hb⟩

lemma le_of_mem_place (hp : p ∈ place order i l) : i ≤ p.1 := by
  induction l generalizing i with
  | nil => simp [place] at hp
  | cons a l ih =>
    rcases mem_cons.mp hp with rfl | hp
    · exact le_refl _
    · exact le_trans (Nat.le_add_right _ _) (ih hp)

lemma find?_place_append {pre post : List α} (hpre : ∀ b ∈ pre, test b = false)
    (ha : test a = true) :
    ((place order i (pre ++ a :: post)).find? fun p => test p.2) =
      some (stopAt order i pre, a) := by
  induction pre generalizing i with
  | nil => simp [place, ha]
  | cons b pre ih =>
    rw [cons_append, place, stopAt_cons, find?_cons_of_neg (by simp [hpre b mem_cons_self])]
    exact ih fun c hc => hpre c (mem_cons_of_mem b hc)

omit order in
lemma split_at_first (test : α → Bool) (l : List α) : (∀ b ∈ l, test b = false) ∨
      ∃ pre a post, l = pre ++ a :: post ∧ test a = true ∧ ∀ b ∈ pre, test b = false := by
  cases hf : l.find? test with
  | none =>
    refine .inl fun b hb => ?_
    simpa using find?_eq_none.mp hf b hb
  | some a =>
    obtain ⟨ha, pre, post, hl, hpre⟩ := find?_eq_some_iff_append.mp hf
    exact .inr ⟨pre, a, post, hl, ha, fun b hb => by simpa using hpre b hb⟩

lemma find?_place_none (h : ∀ b ∈ l, test b = false) :
    ((place order i l).find? fun p => test p.2) = none := by
  rw [find?_eq_none]
  intro p hp
  have hmem : p.2 ∈ l := by
    have := mem_map_of_mem (f := Prod.snd) hp
    rwa [map_snd_place] at this
  simp [h p.2 hmem]

/-! ### Settled cuts -/

section
variable {free : α → Bool} {b : α} {m pre : List α}

lemma freeEnd_cons (free : α → Bool) (i : Nat) (a : α) (l : List α) :
    freeEnd order free i (a :: l) = if free a then freeEnd order free (i + 2 ^ order a) l
      else i := by
  unfold freeEnd
  rw [place, find?_cons]
  cases free a <;> simp

lemma freeEnd_of_free (h : ∀ a ∈ l, free a = true) : freeEnd order free i l = stopAt order i l := by
  have hnone := @find?_place_none i α order l (fun a => !free a) fun a ha => by simp [h a ha]
  rw [freeEnd, hnone]
  rfl

lemma le_freeEnd (free : α → Bool) (i : Nat) (l : List α) : i ≤ freeEnd order free i l := by
  induction l generalizing i with
  | nil => simp [freeEnd, place]
  | cons a l ih =>
    rw [freeEnd_cons]
    split
    · exact le_trans (Nat.le_add_right _ _) (ih _)
    · exact le_refl i

lemma Topmost.of_freeEnd_le (h : freeEnd order free i (a :: l) ≤ i + 2 ^ order a) :
    Topmost order free i a l := by
  intro k _ hend
  exact (Nat.pow_le_pow_iff_right (by decide : 1 < 2)).mp (by omega)

lemma Topmost.of_not_dvd (h : ¬ 2 ^ (order a + 1) ∣ i) : Topmost order free i a l := by
  intro k hk _
  by_contra hlt
  exact h (dvd_trans (pow_dvd_pow 2 (by omega)) hk)

lemma Topmost.of_buddy (hi : 2 ^ (order a + 1) ∣ i)
    (hb : Topmost order free (i + 2 ^ order a) b l) (ht : Cut order (i + 2 ^ order a) (b :: l) j)
    (hne : order b ≠ order a) : Topmost order free i a (b :: l) := by
  intro k hk hend
  by_contra hlt
  have hpow : 2 ^ (order a + 1) ≤ 2 ^ k := Nat.pow_le_pow_right (by decide) (by omega)
  have hhalf : 2 ^ order a ∣ i := Nat.dvd_trans (Nat.pow_dvd_pow 2 (le_succ _)) hi
  rw [freeEnd_cons] at hend
  split at hend
  · have hle := hb _ (Nat.dvd_add hhalf (Nat.dvd_refl _)) (by omega)
    have hge : order b ≤ order a := Cut.order_le_of_buddy hi ht
    omega
  · omega

lemma Topmost.settled (h : Topmost order free i a l)
    (hl : Settled order free (i + 2 ^ order a) l) : Settled order free i (a :: l) := by
  cases l with
  | nil => trivial
  | cons b l =>
    refine ⟨?_, hl⟩
    rintro ⟨ha, hb, heq, hi⟩
    have hpow : 2 ^ order b = 2 ^ order a := by rw [heq]
    have hend : i + 2 ^ order a + 2 ^ order b ≤ freeEnd order free _ l := le_freeEnd free _ l
    have hle := h _ hi (by rw [freeEnd_cons, if_pos ha, freeEnd_cons, if_pos hb]; omega)
    omega

lemma Settled.tail (h : Settled order free i (a :: l)) :
    Settled order free (i + 2 ^ order a) l := by
  cases l with
  | nil => trivial
  | cons b l => exact h.2

lemma Settled.of_append (h : Settled order free i (pre ++ l)) :
    Settled order free (stopAt order i pre) l := by
  induction pre generalizing i with
  | nil => exact h
  | cons a pre ih =>
    rw [stopAt_cons]
    exact ih h.tail

lemma Settled.append_used (h : Settled order free i (pre ++ l)) (hb : free b = false)
    (hm : Settled order free (stopAt order i pre) (b :: m)) :
    Settled order free i (pre ++ b :: m) := by
  induction pre generalizing i with
  | nil => exact hm
  | cons a pre ih =>
    rw [stopAt_cons] at hm
    have hrest := ih h.tail hm
    cases pre with
    | nil => exact ⟨by simp [hb], hrest⟩
    | cons c pre => exact ⟨h.1, hrest⟩

lemma Settled.halves (hm : m.map order = range' k (j - k)) (hk : k ≤ j) (hi : 2 ^ j ∣ i)
    (hl : Settled order free (i + 2 ^ j) l) : Settled order free (i + 2 ^ k) (m ++ l) := by
  induction m generalizing k with
  | nil =>
    obtain rfl : j = k := by
      have := congrArg length hm
      simp only [length_map, length_nil, length_range'] at this
      omega
    exact hl
  | cons a m ih =>
    obtain ⟨n, hn⟩ : ∃ n, j - k = n + 1 := by
      have := congrArg length hm
      simp only [length_map, length_range'] at this
      exact ⟨m.length, this.symm⟩
    rw [hn, map_cons, range'_succ, cons_eq_cons] at hm
    obtain ⟨rfl, hm⟩ := hm
    have hdvd : 2 ^ (order a + 1) ∣ i := dvd_trans (pow_dvd_pow 2 (by omega)) hi
    refine Topmost.settled (Topmost.of_not_dvd fun h => ?_) ?_
    · have hle := le_of_dvd (Nat.two_pow_pos _) ((Nat.dvd_add_right hdvd).mp h)
      exact absurd ((Nat.pow_le_pow_iff_right (by decide : 1 < 2)).mp hle) (by omega)
    · rw [show i + 2 ^ order a + 2 ^ order a = i + 2 ^ (order a + 1) by omega]
      exact ih (by rw [hm, show j - (order a + 1) = n by omega]) (by omega)

lemma Settled.topmost (h : Settled order free i (a :: l)) (ht : Cut order i (a :: l) j) :
    Topmost order free i a l := by
  intro k
  induction k generalizing i a l with
  | zero => exact fun _ _ => Nat.zero_le _
  | succ k ih =>
    intro hi hend
    have hhalf : 2 ^ k ∣ i := Nat.dvd_trans (Nat.pow_dvd_pow 2 (le_succ k)) hi
    have hk : k ≤ order a := ih h ht hhalf (by omega)
    by_contra hlt
    -- The first block is the left half, and the next block is its buddy.
    obtain rfl : order a = k := by omega
    rw [freeEnd_cons] at hend
    split at hend
    next ha =>
      cases l with
      | nil =>
        simp only [freeEnd, place, find?_nil, Option.map_none, Option.getD_none, stopAt_nil] at hend
        omega
      | cons b l =>
        have hb : order a ≤ order b := ih h.2 ht.2 (Nat.dvd_add hhalf (Nat.dvd_refl _)) (by omega)
        have hb' : order b ≤ order a := Cut.order_le_of_buddy hi ht.2
        rw [freeEnd_cons] at hend
        split at hend
        next hfree => exact h.1 ⟨ha, hfree, by omega, hi⟩
        · omega
    · omega

end

end Wm8850.Lib
