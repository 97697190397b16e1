import Mathlib.Data.List.TakeWhile
import Wm8850.Env.Syspara
import Wm8850.Lib.Strings
import Mathlib.Data.List.Flatten

/-! # The environment as a list of definitions

An environment is a list of definitions `name=value` (`Entry`), and it means a partial function
(`lookup`). The search loop finds the first definition of a name, up to its first `'='` (`key`).
`wmt_setsyspara` deletes a definition by moving the ones behind it down (`shift`), and appends one
at the double NUL. `Holds` asks for the double NUL also when there is no definition: the search for
the end looks for two NULs. -/

namespace Wm8850.Env

open Lib List

/-- A definition of a name. -/
structure Entry where
  name : List UInt8
  value : List UInt8
  name_eq : eqSign ∉ name
  name_nul : (0 : UInt8) ∉ name
  value_nul : (0 : UInt8) ∉ value
deriving DecidableEq

def Entry.bytes (e : Entry) : List UInt8 := e.name ++ eqSign :: e.value

variable {es : List Entry} {k : List UInt8}

lemma Entry.bytes_ne_nil (e : Entry) : e.bytes ≠ [] := by
  simp [Entry.bytes]

lemma Entry.nul_not_mem (e : Entry) : (0 : UInt8) ∉ e.bytes := by
  have hname := e.name_nul
  have hvalue := e.value_nul
  simp [Entry.bytes, eqSign, hname, hvalue]

/-- The definitions as they stand in the data, each with its NUL. -/
def packed (es : List Entry) : List UInt8 := pack 0 (es.map Entry.bytes)

@[simp] lemma packed_nil : packed [] = [] := rfl

@[simp] lemma packed_cons (e : Entry) (es : List Entry) :
    packed (e :: es) = e.bytes ++ 0 :: packed es := by
  simp [packed]

@[simp] lemma packed_append (es fs : List Entry) : packed (es ++ fs) = packed es ++ packed fs := by
  simp [packed]

lemma tight_packed (hne : es ≠ []) : Tight 0 (packed es) := by
  refine tight_pack (by simpa using hne) fun s hs => ?_
  obtain ⟨e, -, rfl⟩ := mem_map.mp hs
  exact ⟨e.bytes_ne_nil, e.nul_not_mem⟩

/-- The part of a name that `envmatch` compares. -/
def key (varname : List UInt8) : List UInt8 := varname.takeWhile fun c => c != eqSign

lemma key_eq_self {varname : List UInt8} (h : eqSign ∉ varname) : key varname = varname := by
  refine takeWhile_eq_self_iff.mpr fun c hc => ?_
  rw [bne_iff_ne]
  rintro rfl
  exact h hc

/-- The value of the first definition of a name. -/
def lookup (es : List Entry) (name : List UInt8) : Option (List UInt8) :=
  (es.find? fun e => decide (e.name = name)).map Entry.value

/-- The data array `d` starts with the definitions `es` and the NUL that closes them. -/
def Stored (d : List UInt8) (es : List Entry) : Prop := ∃ rest, d = packed es ++ 0 :: rest

/-! ### The loops -/

lemma strEnd_eq (pre s rest : List UInt8) (hs : (0 : UInt8) ∉ s) :
    strEnd (pre ++ (s ++ 0 :: rest)) pre.length = some (pre.length + s.length) := by
  have hidx : (s ++ 0 :: rest).findIdx? (fun c => c == 0) = some s.length := by
    induction s with
    | nil => simp [findIdx?_cons]
    | cons c s ih =>
      have hc : (c == 0) = false := beq_eq_false_iff_ne.mpr fun h => hs (by simp [h])
      have hrec := ih fun h => hs (mem_cons_of_mem c h)
      rw [cons_append, findIdx?_cons, hc, hrec]
      rfl
  unfold strEnd
  rw [drop_left, hidx]
  rfl

/-- `envmatch` at a string that starts with `name=`. Induction on the name that is searched
for, with the place in the array free. -/
theorem envmatch_eq (varname : List UInt8) {name : List UInt8} (heq : eqSign ∉ name)
    (hnul : (0 : UInt8) ∉ name) (pre tail : List UInt8) :
    envmatch (pre ++ (name ++ eqSign :: tail)) varname pre.length
      = some (if key varname = name then some (pre.length + name.length + 1) else none) := by
  induction varname generalizing pre name with
  | nil =>
    cases name with
    | nil => simp [envmatch, key, eqSign]
    | cons c name =>
      have hc : c ≠ eqSign := fun h => heq (by simp [h])
      have hz : c ≠ 0 := fun h => hnul (by simp [h])
      simp [envmatch, key, hc, hz]
  | cons c varname ih =>
    by_cases hsign : c = eqSign
    · -- The key ends here.
      subst hsign
      cases name with
      | nil => simp [envmatch, key]
      | cons c' name =>
        have hc : eqSign ≠ c' := fun h => heq (by simp [h])
        simp [envmatch, key, hc]
    have hkey : key (c :: varname) = c :: key varname := by simp [key, hsign]
    rw [hkey]
    cases name with
    | nil => simp [envmatch, hsign]
    | cons c' name =>
      by_cases hc : c = c'
      · subst hc
        have hrec := ih (fun h => heq (mem_cons_of_mem c h)) (fun h => hnul (mem_cons_of_mem c h))
          (pre ++ [c])
        rw [length_append, length_singleton, append_assoc] at hrec
        simp only [envmatch, cons_append, getElem?_append_cons, if_true, if_neg hsign]
        rw [show pre ++ c :: (name ++ eqSign :: tail) = pre ++ ([c] ++ (name ++ eqSign :: tail))
          from rfl, hrec]
        simp only [cons.injEq, true_and, length_cons]
        split
        · congr 2
          omega
        · rfl
      · simp [envmatch, hc]

def locate (k : List UInt8) : List Entry → Nat → Option (Nat × Nat × Nat)
  | [], _ => none
  | e :: es, off =>
    if k = e.name then some (off, off + e.bytes.length, off + e.name.length + 1)
    else locate k es (off + e.bytes.length + 1)

lemma search_eq (varname : List UInt8) (es : List Entry) (pre rest : List UInt8) :
    search (pre ++ (packed es ++ 0 :: rest)) varname pre.length =
      some (locate (key varname) es pre.length) := by
  induction es generalizing pre with
  | nil =>
    rw [search]
    simp [locate]
  | cons e es ih =>
    have hend := strEnd_eq pre e.bytes (packed es ++ 0 :: rest) e.nul_not_mem
    have hmatch := envmatch_eq varname e.name_eq e.name_nul pre
      (e.value ++ 0 :: (packed es ++ 0 :: rest))
    have hsplit : packed (e :: es) ++ 0 :: rest =
        e.bytes ++ 0 :: (packed es ++ 0 :: rest) := by simp
    have hsplit' : e.bytes ++ 0 :: (packed es ++ 0 :: rest)
        = e.name ++ eqSign :: (e.value ++ 0 :: (packed es ++ 0 :: rest)) := by
      simp [Entry.bytes]
    -- The string does not start with a NUL.
    have hhead : ∃ c, (pre ++ (e.bytes ++ 0 :: (packed es ++ 0 :: rest)))[pre.length]? = some c ∧
        c ≠ 0 := by
      cases hb : e.bytes with
      | nil => exact absurd hb e.bytes_ne_nil
      | cons c s =>
        refine ⟨c, by simp, fun hc => e.nul_not_mem ?_⟩
        simp [hb, hc]
    obtain ⟨c, hget, hc⟩ := hhead
    rw [hsplit, search, hget]
    simp only [if_neg hc]
    rw [← hsplit'] at hmatch
    split
    · rename_i hnone
      rw [hend] at hnone
      exact absurd hnone (by simp)
    rename_i nxt hnxt
    rw [hend] at hnxt
    cases hnxt
    rw [hmatch, locate]
    by_cases hk : key varname = e.name
    · rw [if_pos hk, if_pos hk]
    rw [if_neg hk, if_neg hk]
    have hrec := ih (pre ++ (e.bytes ++ [0]))
    rw [append_assoc, append_assoc] at hrec
    simp only [length_append] at hrec
    exact hrec

lemma locate_none (h : ∀ e ∈ es, e.name ≠ k) (off : Nat) : locate k es off = none := by
  induction es generalizing off with
  | nil => rfl
  | cons e es ih =>
    rw [locate, if_neg fun hk => h e (by simp) hk.symm]
    exact ih (fun f hf => h f (mem_cons_of_mem e hf)) _

lemma locate_some (l r : List Entry) (e : Entry) (h : ∀ f ∈ l, f.name ≠ e.name) (off : Nat) :
    locate e.name (l ++ e :: r) off =
      some (off + (packed l).length, off + (packed l).length + e.bytes.length,
          off + (packed l).length + e.name.length + 1) := by
  induction l generalizing off with
  | nil => simp [locate]
  | cons f l ih =>
    rw [cons_append, locate, if_neg fun hk => h f (by simp) hk.symm,
      ih (fun x hx => h x (mem_cons_of_mem f hx))]
    simp only [packed_cons, length_append, length_cons]
    congr 2
    · omega
    · congr 1 <;> omega

/-! ### Reading a value -/

lemma split_at (h : ∃ e ∈ es, e.name = k) : ∃ l e r, es = l ++ e :: r ∧ e.name = k ∧
    ∀ f ∈ l, f.name ≠ k := by
  cases hf : es.find? fun e => decide (e.name = k) with
  | none =>
    obtain ⟨e, he, hk⟩ := h
    have := find?_eq_none.mp hf e he
    simp [hk] at this
  | some e =>
    obtain ⟨hk, l, r, hes, hl⟩ := find?_eq_some_iff_append.mp hf
    exact ⟨l, e, r, hes, by simpa using hk, fun f hfl => by simpa using hl f hfl⟩

lemma lookup_of_not_mem (h : ∀ e ∈ es, e.name ≠ k) : lookup es k = none := by
  rw [lookup, find?_eq_none.mpr fun e he => by simpa using h e he]
  rfl

lemma lookup_split (l r : List Entry) (e : Entry) (h : ∀ f ∈ l, f.name ≠ e.name) :
    lookup (l ++ e :: r) e.name = some e.value := by
  have hl : l.find? (fun f => decide (f.name = e.name)) = none :=
    find?_eq_none.mpr fun f hf => by simpa using h f hf
  rw [lookup, find?_append, hl]
  simp

def reply (value : Option (List UInt8)) (varlen : Int) : GetResult :=
  if ((value.getD []).length : Int) > varlen then
    { varval := value.getD [] ++ [0], varlen := (value.getD []).length, rcode := 1 }
  else
    { varval := value.getD [] ++ [0], varlen := varlen, rcode := if value.isNone then 1 else 0 }

lemma getData_eq {d : List UInt8} (h : Stored d es) (varname : CStr) (varlen : Int) :
    getData d varname varlen = some (reply (lookup es (key varname.bytes)) varlen) := by
  obtain ⟨rest, rfl⟩ := h
  have hsearch := search_eq varname.bytes es [] rest
  rw [nil_append, length_nil] at hsearch
  unfold getData
  rw [hsearch]
  by_cases hex : ∃ e ∈ es, e.name = key varname.bytes
  · obtain ⟨l, e, r, rfl, hk, hl⟩ := split_at hex
    rw [← hk] at hl ⊢
    rw [locate_some l r e hl, lookup_split l r e hl]
    -- The value lies between the `'='` and the NUL of its string.
    have hvalue :
        ((packed (l ++ e :: r) ++ 0 :: rest).drop (0 + (packed l).length + e.name.length + 1)).take
        (0 + (packed l).length + e.bytes.length - (0 + (packed l).length + e.name.length + 1)) =
          e.value := by
      have hsplit : packed (l ++ e :: r) ++ 0 :: rest
          = (packed l ++ (e.name ++ [eqSign])) ++ (e.value ++ (0 :: packed r ++ 0 :: rest)) := by
        simp [Entry.bytes]
      have hlen : (packed l ++ (e.name ++ [eqSign])).length = 0 + (packed l).length +
          e.name.length + 1 := by
        simp only [length_append, length_singleton]
        omega
      have hlen' : 0 + (packed l).length + e.bytes.length
          - (0 + (packed l).length + e.name.length + 1) = e.value.length := by
        simp only [Entry.bytes, length_append, length_cons]
        omega
      rw [hsplit, ← hlen, drop_left, hlen, hlen', take_left]
    simp only [hvalue, reply, Option.getD_some]
    split <;> rfl
  · have hno : ∀ e ∈ es, e.name ≠ key varname.bytes := fun e he hk => hex ⟨e, he, hk⟩
    rw [locate_none hno, lookup_of_not_mem hno, reply]
    simp only [Option.getD_none]
    split <;> rfl

variable {d pre rest : List UInt8} {maxSize : Nat} {es l r : List Entry} {j n env p : Nat}
  {buf : Buf n}
    {w varname varval k q : List UInt8} {e : Entry}

/-- The data array `d` starts with the definitions `es` and the double NUL at their end. -/
def Holds (d : List UInt8) (es : List Entry) : Prop :=
  ∃ rest, d = packed es ++ 0 :: rest ∧ (es = [] → rest.head? = some 0)

lemma Holds.stored (h : Holds d es) : Stored d es := by
  obtain ⟨rest, hd, -⟩ := h
  exact ⟨rest, hd⟩

lemma two_le_length_packed (e : Entry) (es : List Entry) : 2 ≤ (packed (e :: es)).length := by
  have := length_pos_of_ne_nil e.bytes_ne_nil
  simp only [packed_cons, length_append, length_cons]
  omega

/-! ### Stores -/

section Stores

variable {n : Nat}

@[simp] lemma Buf.put_bytes (buf : Buf n) (i : Nat) (c : UInt8) :
    (buf.put i c).bytes = buf.bytes.set i c := rfl

@[simp] lemma Buf.put_stores (buf : Buf n) (i : Nat) (c : UInt8) :
    (buf.put i c).stores = buf.stores ++ [i] := rfl

lemma Buf.puts_stores (buf : Buf n) (i : Nat) (cs : List UInt8) :
    (buf.puts i cs).stores = buf.stores ++ range' i cs.length := by
  induction cs generalizing buf i with
  | nil => simp [Buf.puts]
  | cons c cs ih =>
    rw [Buf.puts, ih, length_cons, range'_succ]
    simp

lemma Buf.puts_bytes {old post : List UInt8} (cs : List UInt8)
    (h : buf.bytes = pre ++ (old ++ post)) (hlen : old.length = cs.length) :
    (buf.puts pre.length cs).bytes = pre ++ (cs ++ post) := by
  induction cs generalizing buf pre old with
  | nil =>
    rw [length_eq_zero_iff.mp hlen] at h
    exact h
  | cons c cs ih =>
    cases old with
    | nil => simp at hlen
    | cons o old =>
      have hput : (buf.put pre.length c).bytes = (pre ++ [c]) ++ (old ++ post) := by
        rw [Buf.put_bytes, h]
        simp
      have hrec := ih hput (by simpa using hlen)
      rw [length_append, length_singleton] at hrec
      rw [Buf.puts, hrec]
      simp

end Stores

/-! ### Deleting -/

lemma shift_step {nxt : Nat} {c : UInt8} (hget : buf.bytes[nxt]? = some c) : shift buf env nxt
      = if c = 0 ∧ (buf.put env c).bytes[nxt + 1]? = some 0 then some (buf.put env c, env)
        else shift (buf.put env c) (env + 1) (nxt + 1) := by
  rw [shift]
  split
  · rename_i hnone
    rw [hget] at hnone
    exact absurd hnone (by simp)
  · rename_i c' hc'
    rw [hget] at hc'
    cases hc'
    rfl

/-- The loop that moves the bytes `w` down over `gap`, by induction on the bytes that are still to
be moved. It ends at the double NUL, which a tight list has only at its end. -/
theorem shift_eq (hw : Tight 0 w) {gap : List UInt8}
    (hgap : gap ≠ []) (h : buf.bytes = pre ++ (gap ++ (w ++ 0 :: rest))) :
    ∃ (buf' : Buf n) (gap' : List UInt8), shift buf pre.length (pre.length + gap.length)
        = some (buf', pre.length + w.length - 1) ∧ buf'.bytes = pre ++ (w ++ (gap' ++ 0 :: rest)) ∧
          gap' ≠ [] ∧
      buf'.stores = buf.stores ++ range' pre.length w.length := by
  induction w generalizing buf pre gap with
  | nil => exact absurd rfl hw.ne_nil
  | cons c w ih =>
    cases gap with
    | nil => exact absurd rfl hgap
    | cons g gs =>
      have hget : buf.bytes[pre.length + (g :: gs).length]? = some c := by
        rw [h, ← length_append, ← append_assoc]
        exact getElem?_append_cons _ _ _
      have hput : (buf.put pre.length c).bytes =
          (pre ++ [c]) ++ ((gs ++ [c]) ++ (w ++ 0 :: rest)) := by
        rw [Buf.put_bytes, h]
        simp
      have hnxt : pre.length + (g :: gs).length + 1 = (pre ++ [c]).length + (gs ++ [c]).length := by
        simp only [length_append, length_cons, length_nil]
        omega
      -- The byte behind `c` is the next one to be moved, or the NUL behind them.
      have hnext : (buf.put pre.length c).bytes[pre.length + (g :: gs).length + 1]? =
          (w ++ 0 :: rest)[0]? := by
        rw [hput, hnxt, ← append_assoc, ← length_append, getElem?_append_right (le_refl _),
          Nat.sub_self]
      rw [shift_step hget, hnext]
      cases w with
      | nil =>
        have hc : c = 0 := hw
        rw [if_pos ⟨hc, rfl⟩]
        exact ⟨_, gs ++ [c], rfl, by rw [hput]; simp, by simp, rfl⟩
      | cons c' w =>
        have hgo : ¬(c = 0 ∧ (c' :: w ++ 0 :: rest)[0]? = some 0) := by
          rintro ⟨hc, hc'⟩
          exact hw.1 hc (Option.some.inj hc')
        rw [if_neg hgo, hnxt]
        obtain ⟨buf', gap', hshift, hbytes, hgap', hstores⟩ := ih hw.2 (by simp) hput
        have henv : pre.length + 1 = (pre ++ [c]).length := by simp
        refine ⟨buf', gap', ?_, ?_, hgap', ?_⟩
        · rw [henv, hshift]
          simp only [length_cons]
          congr 2
          omega
        · rw [hbytes]
          simp
        · rw [hstores, ← henv, Buf.put_stores, append_assoc]
          rfl

lemma deleteEntry_only (h : buf.bytes = packed [e] ++ 0 :: rest) :
    ∃ buf' : Buf n, deleteEntry buf 0 e.bytes.length = some buf' ∧ Holds buf'.bytes [] ∧
      buf'.stores = buf.stores ++ [0, 1] := by
  have hget : buf.bytes[e.bytes.length + 1]? = some 0 := by
    rw [h]
    simp
  have hshape : ∃ x y tail, buf.bytes = x :: y :: tail := by
    have htwo := two_le_length_packed e []
    rw [h]
    match packed [e], htwo with
    | x :: y :: tail, _ => exact ⟨x, y, tail ++ 0 :: rest, rfl⟩
  obtain ⟨x, y, tail, hb⟩ := hshape
  refine ⟨(buf.put 0 0).put 1 0, ?_, ⟨0 :: tail, by simp [hb], by simp⟩, by simp⟩
  unfold deleteEntry
  rw [hget]
  rfl

lemma deleteEntry_last (hl : l ≠ []) (h : buf.bytes = packed l ++ (e.bytes ++ 0 :: 0 :: rest)) :
    ∃ buf' : Buf n, deleteEntry buf (packed l).length ((packed l).length + e.bytes.length) =
      some buf' ∧
      Holds buf'.bytes l ∧ buf'.stores = buf.stores ++ [(packed l).length] := by
  have hget : buf.bytes[(packed l).length + e.bytes.length + 1]? = some 0 := by
    rw [h, add_assoc]
    simp
  have hpos := length_pos_of_ne_nil (tight_packed hl).ne_nil
  refine ⟨buf.put (packed l).length 0, ?_, ?_, rfl⟩
  · unfold deleteEntry
    rw [hget]
    simp only [if_true]
    rw [if_pos hpos, Nat.sub_add_cancel hpos]
  cases hb : e.bytes with
  | nil => exact absurd hb e.bytes_ne_nil
  | cons c cs =>
    refine ⟨cs ++ 0 :: 0 :: rest, ?_, fun hnil => absurd hnil hl⟩
    rw [Buf.put_bytes, h, hb]
    exact set_append_cons _ _ _ _

lemma deleteEntry_before (hr : r ≠ [])
    (h : buf.bytes = packed l ++ ((e.bytes ++ [0]) ++ (packed r ++ 0 :: rest))) : ∃ buf' : Buf n,
      deleteEntry buf (packed l).length ((packed l).length + e.bytes.length) = some buf' ∧
      Holds buf'.bytes (l ++ r) ∧
      buf'.stores = buf.stores ++ range' (packed l).length (packed r).length ++
        [(packed (l ++ r)).length] := by
  have htight := tight_packed hr
  have hgap : e.bytes ++ [0] ≠ [] := by simp
  obtain ⟨buf', gap', hshift, hbytes, hgap', hstores⟩ := shift_eq htight hgap h
  have hpos := length_pos_of_ne_nil htight.ne_nil
  -- The byte behind the definition starts the next one.
  obtain ⟨c, hget, hc⟩ : ∃ c, buf.bytes[(packed l).length + e.bytes.length + 1]? = some c ∧
    c ≠ 0 := by
    cases r with
    | nil => exact absurd rfl hr
    | cons f fs =>
      cases hb : f.bytes with
      | nil => exact absurd hb f.bytes_ne_nil
      | cons c cs =>
        refine ⟨c, ?_, fun hc => f.nul_not_mem (by simp [hb, hc])⟩
        rw [h, add_assoc]
        simp [hb]
  rw [length_append, length_singleton, ← add_assoc] at hshift
  have hend : (packed l).length + (packed r).length - 1 + 1 = (packed (l ++ r)).length := by
    rw [packed_append, length_append]
    omega
  cases gap' with
  | nil => exact absurd rfl hgap'
  | cons g gs =>
    refine ⟨buf'.put (packed (l ++ r)).length 0, ?_, ⟨gs ++ 0 :: rest, ?_, by simp [hr]⟩, ?_⟩
    · unfold deleteEntry
      rw [hget]
      simp only [if_neg hc]
      rw [hshift, ← hend]
    · rw [Buf.put_bytes, hbytes, packed_append]
      simp only [← append_assoc, cons_append]
      exact set_append_cons _ _ _ _
    · rw [Buf.put_stores, hstores]

lemma deleteEntry_eq (h : buf.bytes = packed (l ++ e :: r) ++ 0 :: rest) : ∃ buf' : Buf n,
      deleteEntry buf (packed l).length ((packed l).length + e.bytes.length) = some buf' ∧
      Holds buf'.bytes (l ++ r) ∧ ∀ i ∈ buf'.stores, i ∈ buf.stores ∨
        i < (packed (l ++ e :: r)).length := by
  have hlen : (packed (l ++ e :: r)).length = (packed l).length + (packed (e :: r)).length := by
    rw [packed_append, length_append]
  have htwo := two_le_length_packed e r
  by_cases hr : r = []
  · subst hr
    by_cases hl : l = []
    · subst hl
      obtain ⟨buf', hdel, hholds, hstores⟩ := deleteEntry_only h
      refine ⟨buf', by simpa using hdel, hholds, fun i hi => ?_⟩
      rw [hstores, mem_append] at hi
      refine hi.imp_right fun hi => ?_
      simp only [mem_cons, not_mem_nil, or_false] at hi
      omega
    have hlast : buf.bytes = packed l ++ (e.bytes ++ 0 :: 0 :: rest) := by
      rw [h]
      simp
    obtain ⟨buf', hdel, hholds, hstores⟩ := deleteEntry_last hl hlast
    refine ⟨buf', hdel, by simpa using hholds, fun i hi => ?_⟩
    rw [hstores, mem_append, mem_singleton] at hi
    exact hi.imp_right fun hi => by omega
  have hbefore : buf.bytes = packed l ++ ((e.bytes ++ [0]) ++ (packed r ++ 0 :: rest)) := by
    rw [h]
    simp
  obtain ⟨buf', hdel, hholds, hstores⟩ := deleteEntry_before hr hbefore
  refine ⟨buf', hdel, hholds, fun i hi => ?_⟩
  rw [hstores, mem_append, mem_append, mem_range'_1, mem_singleton, packed_append, length_append]
    at hi
  simp only [packed_cons, length_append, length_cons] at hlen htwo
  rcases hi with (hi | hi) | hi
  · exact .inl hi
  · exact .inr (by omega)
  · exact .inr (by omega)

/-! ### Appending -/

lemma endMark_tight (hw : Tight 0 w) (rest : List UInt8) :
    endMark (w ++ 0 :: rest) = some (w.length - 1) := by
  induction w with
  | nil => exact absurd rfl hw.ne_nil
  | cons c w ih =>
    cases w with
    | nil =>
      have hc : c = 0 := hw
      simp [endMark, hc]
    | cons c' w =>
      have hrec := ih hw.2
      rw [cons_append] at hrec
      have hgo : endMark (c :: c' :: w ++ 0 :: rest) = (endMark (c' :: (w ++ 0 :: rest))).map
          (· + 1) := by
        by_cases hc : c = 0
        · have hc' := hw.1 hc
          rw [cons_append, cons_append, endMark]
          simp [hc']
        · rw [cons_append, cons_append, endMark, if_pos hc]
      rw [hgo, hrec]
      simp

lemma endMark_eq (h : Holds d es) :
    ∃ env, endMark d = some env ∧ (if env > 0 then env + 1 else env) = (packed es).length := by
  obtain ⟨rest, rfl, hrest⟩ := h
  cases es with
  | nil =>
    cases rest with
    | nil => exact absurd (hrest rfl) (by simp)
    | cons c rest =>
      have hc : c = 0 := by simpa using hrest rfl
      exact ⟨0, by simp [endMark, hc], rfl⟩
  | cons e es =>
    have htwo := two_le_length_packed e es
    refine ⟨_, endMark_tight (tight_packed (by simp)) rest, ?_⟩
    rw [if_pos (by omega)]
    omega

def Buf.define {n : Nat} (buf : Buf n) (p : Nat) (varname varval : List UInt8) : Buf n :=
  (((buf.puts p (varname ++ [0])).put (p + varname.length) eqSign).puts
    (p + varname.length + 1) (varval ++ [0])).put (p + varname.length + 1 + varval.length + 1) 0

lemma appendEntry_define
    (hmark : endMark buf.bytes = some env) (hp : (if env > 0 then env + 1 else env) = p)
    (hfit : p + (varname.length + 2 + varval.length) ≤ maxSize) :
    appendEntry buf maxSize varname varval = some (buf.define p varname varval, true) := by
  unfold appendEntry
  rw [hmark]
  simp only [hp]
  rw [if_neg (not_lt.mpr hfit)]
  rfl

lemma Buf.mem_define (buf : Buf n) (p : Nat) (varname varval : List UInt8) (i : Nat) :
    i ∈ (buf.define p varname varval).stores ↔
      i ∈ buf.stores ∨ (p ≤ i ∧ i ≤ p + varname.length + varval.length + 2) := by
  unfold Buf.define
  simp only [Buf.put_stores, Buf.puts_stores, mem_append, mem_range'_1,
    mem_singleton, length_append, length_singleton]
  by_cases hi : i ∈ buf.stores
  · simp [hi]
  · simp only [hi, false_or]
    omega

lemma exists_split {k : Nat} (h : k ≤ d.length) : ∃ old tail, d = old ++ tail ∧ old.length = k := by
  refine ⟨d.take k, d.drop k, (take_append_drop k d).symm, ?_⟩
  rw [length_take]
  omega

lemma Buf.define_bytes {tail : List UInt8}
    (h : buf.bytes = pre ++ tail) (hroom : varname.length + varval.length + 3 ≤ tail.length) :
    ∃ rest, (buf.define pre.length varname varval).bytes
      = pre ++ (varname ++ eqSign :: varval) ++ 0 :: 0 :: rest := by
  -- Cut the places of the four stores out of the array.
  obtain ⟨old1, tail1, rfl, hold1⟩ := exists_split (show varname.length + 1 ≤ tail.length by omega)
  rw [length_append] at hroom
  obtain ⟨old2, tail2, rfl, hold2⟩ := exists_split (show varval.length + 1 ≤ tail1.length by omega)
  rw [length_append] at hroom
  obtain ⟨old3, rest, rfl, hold3⟩ := exists_split (show 1 ≤ tail2.length by omega)
  obtain ⟨x, rfl⟩ := length_eq_one_iff.mp hold3
  have hname := buf.puts_bytes (varname ++ [0]) h (by simpa using hold1)
  have hsign : ((buf.puts pre.length (varname ++ [0])).put (pre.length + varname.length)
      eqSign).bytes = (pre ++ varname ++ [eqSign]) ++ (old2 ++ ([x] ++ rest)) := by
    rw [Buf.put_bytes, hname, ← length_append]
    simp
  have hvalue := Buf.puts_bytes (varval ++ [0]) hsign (by simpa using hold2)
  have hidx : (pre ++ varname ++ [eqSign]).length = pre.length + varname.length + 1 := by
    simp only [length_append, length_singleton]
  rw [hidx] at hvalue
  have hlast : pre.length + varname.length + 1 + varval.length + 1
      = (pre ++ varname ++ [eqSign] ++ (varval ++ [0])).length := by
    simp only [length_append, length_singleton]
    omega
  unfold Buf.define
  rw [Buf.put_bytes, hvalue, hlast]
  simp

lemma appendEntry_eq (h : Holds buf.bytes es) 
    (hfit : (packed es).length + (varname.length + 2 + varval.length) ≤ maxSize) :
    ∃ buf' : Buf n, appendEntry buf maxSize varname varval = some (buf', true) ∧
      (∀ i, i ∈ buf'.stores ↔ i ∈ buf.stores ∨
        ((packed es).length ≤ i ∧ i ≤ (packed es).length + varname.length + varval.length + 2)) ∧
      ((packed es).length + varname.length + varval.length + 3 ≤ n →
        ∃ rest, buf'.bytes = packed es ++ (varname ++ eqSign :: varval) ++ 0 :: 0 :: rest) := by
  obtain ⟨env, hmark, henv⟩ := endMark_eq h
  refine ⟨_, appendEntry_define hmark henv hfit, buf.mem_define _ _ _, fun hroom => ?_⟩
  obtain ⟨rest, hb, -⟩ := h
  refine Buf.define_bytes hb ?_
  have hlen := buf.len
  rw [hb, length_append] at hlen
  omega

lemma appendEntry_overflow (h : Holds buf.bytes es) 
    (hfull : maxSize < (packed es).length + (varname.length + 2 + varval.length)) :
    appendEntry buf maxSize varname varval = some (buf, false) := by
  obtain ⟨env, hmark, henv⟩ := endMark_eq h
  unfold appendEntry
  rw [hmark]
  simp only [henv]
  rw [if_pos hfull]

/-! ### The whole edit -/

/-- The definition that the string `varname=varval` makes. If `varname` contains `'='`, the
name ends there. -/
def Entry.ofDef (varname varval : CStr) : Entry where
  name := key varname.bytes
  value :=
    if eqSign ∈ varname.bytes then
      (varname.bytes.dropWhile fun c => c != eqSign).tail ++ eqSign :: varval.bytes
    else varval.bytes
  name_eq := fun h => by simpa using mem_takeWhile_imp h
  name_nul := fun h => varname.noNul ((takeWhile_sublist _).subset h)
  value_nul := by
    split
    · intro h
      rcases mem_append.mp h with h | h
      · exact varname.noNul ((dropWhile_sublist _).subset (mem_of_mem_tail h))
      · rcases mem_cons.mp h with h | h
        · exact absurd h (by decide)
        · exact varval.noNul h
    · exact varval.noNul

lemma Entry.bytes_ofDef (varname varval : CStr) :
    (Entry.ofDef varname varval).bytes = varname.bytes ++ eqSign :: varval.bytes := by
  unfold Entry.bytes Entry.ofDef key
  simp only
  split
  · rename_i hmem
    -- The name is its key, the sign and what follows.
    have hsplit := takeWhile_append_dropWhile (p := fun c => c != eqSign) (l := varname.bytes)
    cases hd : varname.bytes.dropWhile fun c => c != eqSign with
    | nil =>
      rw [hd, append_nil] at hsplit
      rw [← hsplit] at hmem
      simpa using mem_takeWhile_imp hmem
    | cons c tail =>
      have hc : c = eqSign := by
        have hne : varname.bytes.dropWhile (fun c => c != eqSign) ≠ [] := by simp [hd]
        simpa [hd] using head_dropWhile_not _ hne
      rw [hd, hc] at hsplit
      calc varname.bytes.takeWhile (fun c => c != eqSign)
            ++ eqSign :: ((c :: tail).tail ++ eqSign :: varval.bytes)
          = (varname.bytes.takeWhile (fun c => c != eqSign) ++ eqSign :: tail)
            ++ eqSign :: varval.bytes := by simp
        _ = varname.bytes ++ eqSign :: varval.bytes := by rw [hsplit]
  · rename_i hmem
    rw [show varname.bytes.takeWhile (fun c => c != eqSign) = varname.bytes from key_eq_self hmem]

/-- Without the first definition of a name. -/
def without (k : List UInt8) (es : List Entry) : List Entry :=
  es.eraseP fun e => decide (e.name = k)

lemma without_split (l r : List Entry) (e : Entry) (h : ∀ f ∈ l, f.name ≠ e.name) :
    without e.name (l ++ e :: r) = l ++ r := by
  unfold without
  rw [eraseP_append_right _ fun f hf => by simpa using h f hf]
  simp

lemma without_of_not_mem (h : ∀ e ∈ es, e.name ≠ k) : without k es = es :=
  eraseP_of_forall_not fun e he => by simpa using h e he

variable {n : Nat} {buf : Buf n} {es : List Entry}

lemma without_sublist (k : List UInt8) (es : List Entry) : (without k es).Sublist es :=
  eraseP_sublist

lemma length_packed_without (k : List UInt8) (es : List Entry) :
    (packed (without k es)).length ≤ (packed es).length :=
  (((without_sublist k es).map Entry.bytes).flatMap _).length_le

lemma lookup_without_ne (h : q ≠ k) (es : List Entry) : lookup (without k es) q = lookup es q := by
  induction es with
  | nil => rfl
  | cons e es ih =>
    unfold without lookup at ih ⊢
    by_cases hk : e.name = k
    · have hq : e.name ≠ q := fun hq => h (hq ▸ hk)
      rw [eraseP_cons_of_pos (by simpa using hk), find?_cons_of_neg (by simpa using hq)]
    · rw [eraseP_cons_of_neg (by simpa using hk), find?_cons, find?_cons]
      split
      · rfl
      · exact ih

lemma lookup_without_self (hd : (es.map Entry.name).Nodup) (k : List UInt8) :
    ∀ e ∈ without k es, e.name ≠ k := by
  induction es with
  | nil => simp [without]
  | cons e es ih =>
    rw [map_cons, nodup_cons] at hd
    unfold without at ih ⊢
    by_cases hk : e.name = k
    · rw [eraseP_cons_of_pos (by simpa using hk)]
      intro f hf hfk
      exact hd.1 (mem_map.mpr ⟨f, hf, hfk.trans hk.symm⟩)
    rw [eraseP_cons_of_neg (by simpa using hk)]
    intro f hf
    rcases mem_cons.mp hf with rfl | hf
    · exact hk
    · exact ih hd.2 f hf

lemma lookup_append_self (h : ∀ f ∈ es, f.name ≠ e.name) :
    lookup (es ++ [e]) e.name = some e.value :=
  lookup_split es [] e h

lemma lookup_append_ne (h : q ≠ e.name) (es : List Entry) : lookup (es ++ [e]) q = lookup es q := by
  unfold lookup
  rw [find?_append, find?_cons_of_neg (by simpa using Ne.symm h)]
  simp

/-- The name has a definition. -/
def Defined (es : List Entry) (k : List UInt8) : Prop := ∃ e ∈ es, e.name = k

lemma setData_undefined (h : Stored buf.bytes es) {varname : CStr}
    (hno : ¬Defined es (key varname.bytes)) (maxSize : Nat) (varval : Option CStr) :
    setData buf maxSize varname varval = if noValue varval then some (buf, false)
        else appendEntry buf maxSize varname.bytes ((varval.map CStr.bytes).getD []) := by
  obtain ⟨rest, hb⟩ := h
  have hsearch := search_eq varname.bytes es [] rest
  rw [nil_append, length_nil, locate_none fun e he hk => hno ⟨e, he, hk⟩, ← hb] at hsearch
  unfold setData
  rw [hsearch]
  rfl

lemma setData_defined (h : Holds buf.bytes es) {varname : CStr}
    (hex : Defined es (key varname.bytes)) (maxSize : Nat) (varval : Option CStr) :
    ∃ buf' : Buf n, Holds buf'.bytes (without (key varname.bytes) es) ∧
      (∀ i ∈ buf'.stores, i ∈ buf.stores ∨ i < (packed es).length) ∧
      setData buf maxSize varname varval = (baudrateOk varname varval).bind fun ok => if ok then
              if noValue varval then some (buf', true)
              else appendEntry buf' maxSize varname.bytes ((varval.map CStr.bytes).getD [])
            else some (buf, false) := by
  obtain ⟨rest, hb, -⟩ := h
  obtain ⟨l, e, r, rfl, hk, hl⟩ := split_at hex
  have hsearch := search_eq varname.bytes (l ++ e :: r) [] rest
  rw [← hk] at hl hsearch ⊢
  rw [nil_append, length_nil, locate_some l r e hl, ← hb] at hsearch
  obtain ⟨buf', hdel, hholds, hstores⟩ := deleteEntry_eq hb
  refine ⟨buf', by rw [without_split l r e hl]; exact hholds, hstores, ?_⟩
  unfold setData
  rw [hsearch]
  simp [hdel]

lemma noValue_some {v : CStr} (h : v.bytes ≠ []) : noValue (some v) = false := by
  simpa [noValue] using h

lemma exists_of_noValue {varval : Option CStr} (h : noValue varval = false) :
    ∃ v, varval = some v ∧ v.bytes ≠ [] := by
  cases varval with
  | none => simp [noValue] at h
  | some v => exact ⟨v, rfl, by simpa [noValue] using h⟩

/-- With a value that is accepted, the definition before is gone when the new one is appended. -/
theorem setData_cases (h : Holds buf.bytes es) (maxSize : Nat) (varname : CStr)
    (varval : Option CStr) : (¬Defined es (key varname.bytes) ∧ noValue varval = true ∧
      setData buf maxSize varname varval = some (buf, false)) ∨
    (Defined es (key varname.bytes) ∧ baudrateOk varname varval = none ∧
      setData buf maxSize varname varval = none) ∨
    (Defined es (key varname.bytes) ∧ baudrateOk varname varval = some false ∧
      setData buf maxSize varname varval = some (buf, false)) ∨
    ∃ buf' : Buf n, Holds buf'.bytes (without (key varname.bytes) es) ∧
      (∀ i ∈ buf'.stores, i ∈ buf.stores ∨ i < (packed es).length) ∧
      (Defined es (key varname.bytes) → baudrateOk varname varval = some true) ∧
      (¬Defined es (key varname.bytes) → buf' = buf) ∧
      ((noValue varval = true ∧ Defined es (key varname.bytes) ∧
          setData buf maxSize varname varval = some (buf', true)) ∨
        ∃ v, varval = some v ∧ v.bytes ≠ [] ∧ setData buf maxSize varname varval
            = appendEntry buf' maxSize varname.bytes v.bytes) := by
  by_cases hdef : Defined es (key varname.bytes)
  · obtain ⟨buf', hholds, hstores, heq⟩ := setData_defined h hdef maxSize varval
    refine .inr ?_
    cases hbaud : baudrateOk varname varval with
    | none => exact .inl ⟨hdef, rfl, by rw [heq, hbaud]; rfl⟩
    | some ok =>
      rw [hbaud] at heq
      cases ok with
      | false => exact .inr (.inl ⟨hdef, rfl, heq⟩)
      | true =>
        refine .inr (.inr ⟨buf', hholds, hstores, fun _ => rfl, fun hno => absurd hdef hno, ?_⟩)
        cases hval : noValue varval with
        | true => exact .inl ⟨rfl, hdef, by rw [heq, hval]; rfl⟩
        | false =>
          obtain ⟨v, rfl, hv⟩ := exists_of_noValue hval
          exact .inr ⟨v, rfl, hv, by rw [heq, hval]; rfl⟩
  have heq := setData_undefined h.stored hdef maxSize varval
  cases hval : noValue varval with
  | true => exact .inl ⟨hdef, rfl, by rw [heq, hval]; rfl⟩
  | false =>
    have hwithout : without (key varname.bytes) es = es := without_of_not_mem fun e he hk =>
      hdef ⟨e, he, hk⟩
    obtain ⟨v, rfl, hv⟩ := exists_of_noValue hval
    refine .inr (.inr (.inr ⟨buf, by rw [hwithout]; exact h, fun i hi => .inl hi,
      fun h => absurd h hdef, fun _ => rfl, .inr ⟨v, rfl, hv, ?_⟩⟩))
    rw [heq, hval]
    rfl

end Wm8850.Env
