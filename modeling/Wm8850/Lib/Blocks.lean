import Wm8850.Lib.Keyed
import Mathlib.Order.Nat
import Mathlib.Data.List.Pairwise

/-! # Blocks that end where the next one begins

Each block begins with a header of `hd` bytes, and its contents go up to the next header, or to the
end `hi` of the region. `Tiled` says that the headers stand in order, `endOf` is the end of one
block, and `Used` the bytes of headers and of contents in use. All of them split over an append. -/

namespace Wm8850.Lib

open List

section
variable {α : Type} (addr : α → Nat)

def startOf (hi : Nat) : List α → Nat
  | [] => hi
  | b :: _ => addr b

def endOf (hi k : Nat) : List α → Nat
  | [] => hi
  | b :: bs => if addr b = k then startOf addr hi bs else endOf hi k bs

def Tiled (hd hi : Nat) : List α → Prop
  | [] => True
  | b :: bs => addr b + hd ≤ startOf addr hi bs ∧ Tiled hd hi bs

def Used (hd : Nat) (inUse : α → Bool) (hi : Nat) : List α → Nat → Prop
  | [], _ => False
  | b :: bs, x =>
    (addr b ≤ x ∧ x < addr b + hd) ∨
      (inUse b = true ∧ addr b + hd ≤ x ∧ x < startOf addr hi bs) ∨ Used hd inUse hi bs x

/-- Pairs of a start and a length that cover `lo` to `hi` without gaps. -/
def Tiles (lo hi : Nat) : List (Nat × Nat) → Prop
  | [] => lo = hi
  | x :: xs => x.1 = lo ∧ Tiles (lo + x.2) hi xs

variable {addr} {hd hi k : Nat} {xs ys bs : List α} {b : α} {x : Nat}

@[simp] lemma startOf_append (xs ys : List α) :
    startOf addr hi (xs ++ ys) = startOf addr (startOf addr hi ys) xs := by
  cases xs <;> rfl

@[simp] lemma startOf_cons (b : α) (bs : List α) : startOf addr hi (b :: bs) = addr b := rfl

lemma endOf_eq_nextOf (bs : List α) :
    endOf addr hi k bs = ((nextOf addr k bs).map addr).getD hi := by
  induction bs with
  | nil => rfl
  | cons b bs ih =>
    rw [endOf, nextOf]
    split
    · cases bs <;> rfl
    · exact ih

/-! Only the addresses matter. -/

lemma startOf_eq_map (bs : List α) : startOf addr hi bs = startOf id hi (bs.map addr) := by
  cases bs <;> rfl

lemma endOf_eq_map (bs : List α) : endOf addr hi k bs = endOf id hi k (bs.map addr) := by
  induction bs with
  | nil => rfl
  | cons b bs ih => rw [map_cons, endOf, endOf, startOf_eq_map, ih, id]

lemma tiled_iff_map (bs : List α) : Tiled addr hd hi bs ↔ Tiled id hd hi (bs.map addr) := by
  induction bs with
  | nil => rfl
  | cons b bs ih => rw [map_cons, Tiled, Tiled, startOf_eq_map, ih, id]

lemma endOf_append_left (h : ∃ b ∈ xs, addr b = k) (ys : List α) :
    endOf addr hi k (xs ++ ys) = endOf addr (startOf addr hi ys) k xs := by
  induction xs with
  | nil => simp at h
  | cons b xs ih =>
    rw [cons_append, endOf, endOf, startOf_append]
    split
    · rfl
    next hb =>
    obtain ⟨c, hc, hk⟩ := h
    rcases mem_cons.mp hc with rfl | hc
    · exact absurd hk hb
    · exact ih ⟨c, hc, hk⟩

lemma endOf_append_right (h : ∀ b ∈ xs, addr b ≠ k) (ys : List α) :
    endOf addr hi k (xs ++ ys) = endOf addr hi k ys := by
  induction xs with
  | nil => rfl
  | cons b xs ih =>
    rw [cons_append, endOf, if_neg (h b mem_cons_self)]
    exact ih fun c hc => h c (mem_cons_of_mem _ hc)

lemma tiled_append :
    Tiled addr hd hi (xs ++ ys) ↔ Tiled addr hd (startOf addr hi ys) xs ∧ Tiled addr hd hi ys := by
  induction xs with
  | nil => simp [Tiled]
  | cons b xs ih => rw [cons_append, Tiled, Tiled, startOf_append, ih, and_assoc]

lemma Tiled.startOf_le (h : Tiled addr hd hi bs) : startOf addr hi bs ≤ hi := by
  induction bs with
  | nil => exact le_refl _
  | cons b bs ih =>
    have hle := ih h.2
    have := h.1
    rw [startOf_cons]
    omega

lemma Tiled.mem (h : Tiled addr hd hi bs) (hb : b ∈ bs) :
    startOf addr hi bs ≤ addr b ∧ addr b + hd ≤ hi := by
  induction bs with
  | nil => simp at hb
  | cons c bs ih =>
    obtain ⟨hc, htail⟩ := h
    have hle := htail.startOf_le
    rw [startOf_cons]
    rcases mem_cons.mp hb with rfl | hb
    · omega
    · obtain ⟨hlow, hhigh⟩ := ih htail hb
      omega

lemma Tiled.endOf_bounds (h : Tiled addr hd hi bs) (hb : b ∈ bs) :
    addr b + hd ≤ endOf addr hi (addr b) bs ∧ endOf addr hi (addr b) bs ≤ hi := by
  induction bs with
  | nil => simp at hb
  | cons c bs ih =>
    rw [endOf]
    split
    · next hc =>
      rw [← hc]
      exact ⟨h.1, h.2.startOf_le⟩
    · next hc =>
      rcases mem_cons.mp hb with rfl | hb
      · exact absurd rfl hc
      · exact ih h.2 hb

lemma exists_next (h : endOf addr hi k bs < hi) : ∃ c ∈ bs, addr c = endOf addr hi k bs := by
  induction bs with
  | nil => exact absurd h (lt_irrefl _)
  | cons b bs ih =>
    rw [endOf] at h ⊢
    split at h
    · next hb =>
      rw [if_pos hb]
      cases bs with
      | nil => exact absurd h (lt_irrefl _)
      | cons c bs => exact ⟨c, by simp, rfl⟩
    · next hb =>
      rw [if_neg hb]
      obtain ⟨c, hc, hend⟩ := ih h
      exact ⟨c, mem_cons_of_mem _ hc, hend⟩

lemma Tiled.pairwise (hpos : 0 < hd) (h : Tiled addr hd hi bs) :
    bs.Pairwise fun b c => addr b < addr c := by
  induction bs with
  | nil => exact List.Pairwise.nil
  | cons b bs ih =>
    refine pairwise_cons.mpr ⟨?_, ih h.2⟩
    intro c hc
    have := (h.2.mem hc).1
    have := h.1
    omega

lemma Tiled.nodup (hpos : 0 < hd) (h : Tiled addr hd hi bs) : (bs.map addr).Nodup :=
  pairwise_map.mpr ((h.pairwise hpos).imp ne_of_lt)

lemma Tiled.tiles (hpos : 0 < hd) (h : Tiled addr hd hi bs) : Tiles (startOf addr hi bs) hi
      (bs.map fun b => (addr b, hd + (endOf addr hi (addr b) bs - (addr b + hd)))) := by
  induction bs with
  | nil => exact rfl
  | cons b bs ih =>
    have hne := pairwise_cons.mp (h.pairwise hpos)
    refine ⟨rfl, ?_⟩
    have hend : startOf addr hi (b :: bs) + (hd + (endOf addr hi (addr b) (b :: bs)
        - (addr b + hd))) = startOf addr hi bs := by
      have := h.1
      rw [endOf, if_pos rfl, startOf_cons]
      omega
    rw [hend, map_congr_left (g := fun c =>
      (addr c, hd + (endOf addr hi (addr c) bs - (addr c + hd))))]
    · exact ih h.2
    · intro c hc
      rw [endOf, if_neg (hne.1 c hc).ne]

/-! ### The bytes in use -/

variable {inUse : α → Bool}

lemma used_append : Used addr hd inUse hi (xs ++ ys) x ↔
      Used addr hd inUse (startOf addr hi ys) xs x ∨ Used addr hd inUse hi ys x := by
  induction xs with
  | nil => simp [Used]
  | cons b xs ih => rw [cons_append, Used, Used, startOf_append, ih, or_assoc, or_assoc]

lemma Tiled.used_bounds (h : Tiled addr hd hi bs)
    (hx : Used addr hd inUse hi bs x) : startOf addr hi bs ≤ x ∧ x < hi := by
  induction bs with
  | nil => exact absurd hx not_false
  | cons b bs ih =>
    have hle := h.2.startOf_le
    have hb := h.1
    rw [startOf_cons]
    rcases hx with hx | ⟨-, hx⟩ | hx
    · omega
    · omega
    · have := ih h.2 hx
      omega

lemma used_iff (hnd : (bs.map addr).Nodup) :
    Used addr hd inUse hi bs x ↔ ∃ b ∈ bs, (addr b ≤ x ∧ x < addr b + hd) ∨
      inUse b = true ∧ addr b + hd ≤ x ∧ x < endOf addr hi (addr b) bs := by
  induction bs with
  | nil => simp [Used]
  | cons b bs ih =>
    rw [map_cons, nodup_cons] at hnd
    have hne : ∀ c ∈ bs, addr b ≠ addr c := fun c hc h => hnd.1 (h ▸ mem_map_of_mem hc)
    simp only [mem_cons, exists_eq_or_imp]
    rw [Used, ih hnd.2, endOf, if_pos rfl, or_assoc]
    refine or_congr_right (or_congr_right (exists_congr fun c => and_congr_right fun hc => ?_))
    rw [endOf, if_neg (hne c hc)]

end

end Wm8850.Lib
