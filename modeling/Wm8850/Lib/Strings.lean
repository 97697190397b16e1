import Mathlib.Data.List.Basic

/-! # Strings packed one after the other

`pack z ss` is the list of all strings of `ss`, each followed by the terminator `z`. With nonempty
strings without `z`, a second terminator marks the end (`Tight`). -/

namespace Wm8850.Lib

open List

variable {α : Type} {z : α}

def pack (z : α) (ss : List (List α)) : List α := ss.flatMap fun s => s ++ [z]

@[simp] lemma pack_cons (z : α) (s : List α) (ss : List (List α)) :
    pack z (s :: ss) = s ++ z :: pack z ss := by
  simp [pack]

@[simp] lemma pack_append (z : α) (ss ts : List (List α)) :
    pack z (ss ++ ts) = pack z ss ++ pack z ts := by
  simp [pack]

/-- A list that ends with `z` and has no two `z` in a row. -/
def Tight (z : α) : List α → Prop
  | [] => False
  | [c] => c = z
  | c :: c' :: w => (c = z → c' ≠ z) ∧ Tight z (c' :: w)

lemma Tight.ne_nil {w : List α} (h : Tight z w) : w ≠ [] := by
  rintro rfl
  exact h

lemma Tight.append {s w : List α} (hs : z ∉ s) (hw : Tight z w) : Tight z (s ++ w) := by
  induction s with
  | nil => exact hw
  | cons c s ih =>
    have hc : c ≠ z := fun h => hs (by simp [h])
    have hrec := ih fun h => hs (mem_cons_of_mem c h)
    cases hsw : s ++ w with
    | nil => exact absurd hsw hrec.ne_nil
    | cons c' w' =>
      rw [cons_append, hsw]
      rw [hsw] at hrec
      exact ⟨fun h => absurd h hc, hrec⟩

lemma tight_pack {ss : List (List α)} (hne : ss ≠ []) (hss : ∀ s ∈ ss, s ≠ [] ∧ z ∉ s) :
    Tight z (pack z ss) := by
  induction ss with
  | nil => exact absurd rfl hne
  | cons s ss ih =>
    rw [pack_cons]
    refine Tight.append (hss s (by simp)).2 ?_
    cases ss with
    | nil => rfl
    | cons t ts =>
      have hrec := ih (by simp) fun u hu => hss u (mem_cons_of_mem s hu)
      obtain ⟨ht, hz⟩ := hss t (by simp)
      -- The next string starts with something else than a terminator.
      cases t with
      | nil => exact absurd rfl ht
      | cons c t =>
        exact ⟨fun _ h => hz (by simp [h]), hrec⟩

lemma set_append_cons (pre post : List α) (c c' : α) :
    (pre ++ c :: post).set pre.length c' = pre ++ c' :: post := by
  simp

lemma getElem?_append_cons (pre post : List α) (c : α) :
    (pre ++ c :: post)[pre.length]? = some c := by
  simp

end Wm8850.Lib
