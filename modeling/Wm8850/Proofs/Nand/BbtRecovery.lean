import Wm8850.Lib.TwoSlots
import Wm8850.Proofs.Nand.BbtCopies

/-! # A power loss at any point

The two copies of a chip's table are the `Copies` of `Wm8850.Lib.TwoSlots`, and `ChipStage` says
that the flash is at a stage of an update. `replace_copy` is the step, `checkChips_stages` puts the
chips together. -/

namespace Wm8850.Nand.Bbt

open Lib Function List Nat Option

variable {ops : List FlashOp} {main stale : Bool} {j retlen : Nat} {f' f0 : Flash} {w : BitVec 8}
    {table bbt T : Bytes} {im : Image} {p : Place} {v : Device} {f : Flash} {P : Flash → Prop}
      {i b : Nat}
    {old new : Bytes} {m : Mem} {spot : Bool → Nat} {c : Copies Bytes} {x : BitVec 8 × Bytes}
    {chipsel : Option Nat}

def Setup.descr (s : Setup) (main : Bool) : Descr := if main then s.td else s.md

def Mem.place (m : Mem) (main : Bool) : Place := if main then m.td else m.md

def Mem.setPlace (m : Mem) (main : Bool) (p : Place) : Mem :=
  if main then { m with td := p } else { m with md := p }

/-- Both tables can be found and read back, and are told apart by their patterns. -/
structure Setup.Sound (s : Setup) : Prop where
  td : s.td.Sound s.dev
  md : s.md.Sound s.dev
  perChip : s.td.perChip = s.md.perChip
  apart : s.td.Apart s.md

/-- A block of chip `i`. -/
def Setup.InChip (s : Setup) (i b : Nat) : Prop :=
  i * s.dev.numblocks s.td ≤ b ∧ b < (i + 1) * s.dev.numblocks s.td

instance (s : Setup) (i b : Nat) : Decidable (s.InChip i b) := inferInstanceAs (Decidable (_ ∧ _))

def ShowsAt (s : Setup) (f : Flash) (i : Nat) (main : Bool) (b : Nat)
    (x : Option (BitVec 8 × Bytes)) : Prop :=
  Shows s.dev (s.descr main) f i (x.map fun x => ⟨b, x.1, x.2⟩)

structure Spots (s : Setup) (i : Nat) (spot : Bool → Nat) : Prop where
  range : ∀ main, (s.descr main).InRange s.dev i (spot main)
  apart : ∀ main, spot main ≠ spot (!main)

/-- The flash is at a stage of an update of chip `i`. The blocks are not bad in the tables that are
there, for a missing copy as well. -/
structure StageAt (s : Setup) (f : Flash) (i : Nat) (v : BitVec 8) (old new : Bytes)
    (spot : Bool → Nat) (c : Copies Bytes) : Prop where
  spots : Spots s i spot
  stage : MirrorStage v old new c
  good : ∀ m x, c m = some x → ∀ main, NotBad x.2 (spot main)
  shows : ∀ main, ShowsAt s f i main (spot main) (c main)

def ChipStage (s : Setup) (f : Flash) (i : Nat) (v : BitVec 8) (old new : Bytes) : Prop :=
  ∃ spot c, StageAt s f i v old new spot c

/-- Both copies have the same version and the table `T`, and the memory has their pages. -/
structure ChipSynced (s : Setup) (f : Flash) (m : Mem) (i : Nat) (T : Bytes) (w : BitVec 8)
    (spot : Bool → Nat) : Prop where
  spots : Spots s i spot
  good : ∀ main, NotBad T (spot main)
  shows : ∀ main, ShowsAt s f i main (spot main) (some (w, T))
  pages : ∀ main, (m.place main).pages i = some (spot main <<< s.dev.blocktopage)
  version : ∀ main, (m.place main).version i = w

/-- Only blocks of chip `i` are changed. -/
def Away (s : Setup) (i : Nat) (f f' : Flash) : Prop :=
  ∀ b, ¬ s.InChip i b → SameBlock s.dev f f' b

/-- The flash after block `b` is erased. -/
def Setup.erased (s : Setup) (f : Flash) (b : Nat) : Flash :=
  FlashOp.apply s.dev f (.erase (b <<< s.dev.bbtEraseShift))

/-- The flash after block `b` is erased and an image is written to it. -/
def Setup.rewritten (s : Setup) (f : Flash) (b : Nat) (main : Bool) (im : Image) : Flash :=
  (im.writeOp (s.descr main)).apply s.dev (s.erased f b)

/-- A power loss after any number of operations. -/
def AllPrefixes (v : Device) (f : Flash) (ops : List FlashOp) (P : Flash → Prop) : Prop :=
  ∀ k, P (f.run v (ops.take k))

lemma Flash.run_append (v : Device) (f : Flash) (a b : List FlashOp) :
    f.run v (a ++ b) = (f.run v a).run v b := foldl_append

lemma AllPrefixes.nil (h : P f) : AllPrefixes v f [] P := by
  intro k
  rw [take_nil]
  exact h

lemma AllPrefixes.cons {op : FlashOp} (h : P f) (hrest : AllPrefixes v (op.apply v f) ops P) :
    AllPrefixes v f (op :: ops) P := by
  intro k
  cases k with
  | zero => exact h
  | succ k => exact hrest k

lemma AllPrefixes.append {a b : List FlashOp}
    (h : AllPrefixes v f a P) (h' : AllPrefixes v (f.run v a) b P) :
    AllPrefixes v f (a ++ b) P := by
  intro k
  rw [take_append]
  by_cases hk : k ≤ a.length
  · rw [Nat.sub_eq_zero_of_le hk, take_zero, append_nil]
    exact h k
  · rw [take_of_length_le (by omega), Flash.run_append]
    exact h' _

lemma AllPrefixes.imp {Q : Flash → Prop} (h : AllPrefixes v f ops P)
    (hPQ : ∀ f', P f' → Q f') : AllPrefixes v f ops Q :=
  fun k => hPQ _ (h k)

lemma AllPrefixes.all (h : AllPrefixes v f ops P) : P (f.run v ops) := by
  have hall := h ops.length
  rw [take_length] at hall
  exact hall

/-! ### The two descriptors -/

section
variable {s : Setup} (hs : s.Sound)
include hs

lemma Setup.Sound.descr (main : Bool) : (s.descr main).Sound s.dev := by
  cases main with
  | false => exact hs.md
  | true => exact hs.td

lemma Setup.Sound.apart_not (main : Bool) : (s.descr main).Apart (s.descr (!main)) := by
  cases main with
  | true => exact hs.apart
  | false =>
    obtain ⟨i, hi, hi', hne⟩ := hs.apart.pattern
    exact ⟨hs.apart.noOob.symm, hs.apart.offs.symm, i, hi', hi, hne.symm⟩

lemma Setup.Sound.perChip_eq (main : Bool) : (s.descr main).perChip = s.td.perChip := by
  cases main with
  | true => rfl
  | false => exact hs.perChip.symm

lemma Setup.Sound.numblocks_eq (main : Bool) :
    s.dev.numblocks (s.descr main) = s.dev.numblocks s.td := by
  rw [Device.numblocks, Device.numblocks, hs.perChip_eq]

lemma Setup.Sound.lt_chips (hi : i < s.dev.chips s.td) (main : Bool) :
    i < s.dev.chips (s.descr main) := by
  rw [Device.chips, hs.perChip_eq]
  exact hi

section
variable (hi : i < s.dev.chips s.td) (h : (s.descr main).InRange s.dev i b)
include hi h

lemma Setup.Sound.inChip : s.InChip i b := by
  have hchip := h.chip (hs.descr main) (hs.lt_chips hi main)
  rw [hs.numblocks_eq] at hchip
  exact hchip

lemma Setup.Sound.lt_blocks : b < s.dev.numchips * s.dev.chipBlocks :=
  h.lt_blocks (hs.descr main) (hs.lt_chips hi main)

end

omit hs in
lemma Setup.InChip.unique (h : s.InChip i b) (h' : s.InChip j b) : i = j := by
  obtain ⟨hlo, hhi⟩ := h
  obtain ⟨hlo', hhi'⟩ := h'
  rcases lt_trichotomy i j with hlt | heq | hgt
  · have hle : (i + 1) * s.dev.numblocks s.td ≤ j * s.dev.numblocks s.td :=
      Nat.mul_le_mul_right _ hlt
    omega
  · exact heq
  · have hle : (j + 1) * s.dev.numblocks s.td ≤ i * s.dev.numblocks s.td :=
      Nat.mul_le_mul_right _ hgt
    omega

lemma ShowsAt.away (hj : j < s.dev.chips s.td) (hij : j ≠ i)
    (haway : Away s i f f') {x : Option (BitVec 8 × Bytes)} (h : ShowsAt s f j main b x) :
    ShowsAt s f' j main b x := by
  apply Shows.frame (hs.descr main) h
  intro b' hb'
  exact .inl (haway b' fun hin => hij ((hs.inChip hj hb').unique hin))

lemma ChipStage.away (hj : j < s.dev.chips s.td) (hij : j ≠ i)
    (haway : Away s i f f') {v : BitVec 8} (h : ChipStage s f j v old new) :
    ChipStage s f' j v old new := by
  obtain ⟨spot, c, h⟩ := h
  exact ⟨spot, c, h.spots, h.stage, h.good, fun main => (h.shows main).away hs hj hij haway⟩

end

/-! ### One copy is replaced -/

section
variable {s : Setup} (hs : s.Sound) {i : Nat} {f : Flash} {spot : Bool → Nat} {c : Copies Bytes}
  (him : bbtImage s.dev f0 retlen (s.descr main) w table i (b <<< s.dev.blocktopage) = .ok im)
include hs him

lemma sameBlock_rewritten (f : Flash) {b' : Nat} (hne : b' ≠ b) :
    SameBlock s.dev f (s.erased f b) b' ∧
      SameBlock s.dev (s.erased f b) (s.rewritten f b main im) b' := by
  obtain ⟨im', him', hdest, hlen, -⟩ := bbtImage_sound (hs.descr main) f0 retlen w table i b
  cases him.symm.trans him'
  refine ⟨erase_sameBlock f hne, ?_⟩
  rw [Setup.rewritten, Image.writeOp, hdest]
  exact write_sameBlock _ hne hlen _ _

lemma away_rewritten (f : Flash) (hb : s.InChip i b) :
    Away s i f (s.erased f b) ∧ Away s i f (s.rewritten f b main im) := by
  have hsame : ∀ b', ¬ s.InChip i b' → _ := fun b' hb' =>
    sameBlock_rewritten hs him f fun heq : b' = b => hb' (heq ▸ hb)
  exact ⟨fun b' hb' => (hsame b' hb').1, fun b' hb' => (hsame b' hb').1.trans (hsame b' hb').2⟩

lemma replace_copy (hshows : ∀ main, ShowsAt s f i main (spot main) (c main))
    (hb : (s.descr main).InRange s.dev i b) (hother : b ≠ spot (!main))
    (hspot : ∀ x, c main = some x → b = spot main) :
    (∀ m, ShowsAt s (s.erased f b) i m (spot m) (c.put main none m)) ∧
      ShowsAt s (s.rewritten f b main im) i main b (some (w, table)) ∧
      ShowsAt s (s.rewritten f b main im) i (!main) (spot (!main)) (c (!main)) := by
  have hd := hs.descr main
  have hd' := hs.descr (!main)
  have hnone : Shows s.dev (s.descr main) (s.erased f b) i none := by
    intro b' hb'
    by_cases heq : b' = b
    · rw [heq]
      exact erase_checkPattern hd f b
    -- no other block had the pattern
    rw [checkPattern_same hd ((sameBlock_rewritten hs him f heq).1), Bool.eq_false_iff]
    intro hcheck
    have hmain := hshows main
    cases hc : c main with
    | none =>
      rw [hc] at hmain
      have := hmain b' hb'
      rw [this] at hcheck
      cases hcheck
    | some x =>
      rw [hc] at hmain
      exact heq ((hmain.2.2.1 b' hb' hcheck).trans (hspot x hc).symm)
  have hblock : ∀ c', (c (!main)).map (fun x => (⟨spot (!main), x.1, x.2⟩ : Copy)) = some c' →
      c'.block ≠ b := by
    intro c' hc'
    obtain ⟨x, -, rfl⟩ := map_eq_some_iff.mp hc'
    exact hother.symm
  have hkeep1 : ShowsAt s (s.erased f b) i (!main) (spot (!main)) (c (!main)) := by
    apply Shows.frame hd' (hshows (!main))
    intro b' _
    by_cases heq : b' = b
    · rw [heq]
      exact .inr ⟨erase_checkPattern hd' f b, hblock⟩
    · exact .inl ((sameBlock_rewritten hs him f heq).1)
  obtain ⟨hfound, hversion, htable, hapart⟩ := writeOp_shows hd him (s.erased f b)
  have hkeep2 : ShowsAt s (s.rewritten f b main im) i (!main) (spot (!main)) (c (!main)) := by
    apply Shows.frame hd' hkeep1
    intro b' _
    by_cases heq : b' = b
    · rw [heq]
      exact .inr ⟨hapart _ (hs.apart_not main), hblock⟩
    · exact .inl ((sameBlock_rewritten hs him f heq).2)
  have hnew : Shows s.dev (s.descr main) (s.rewritten f b main im) i (some ⟨b, w, table⟩) := by
    refine ⟨hb, hfound, ?_, hversion, htable⟩
    intro b' hb' hcheck
    by_contra hne
    rw [checkPattern_same hd ((sameBlock_rewritten hs him f hne).2), hnone b' hb'] at hcheck
    cases hcheck
  refine ⟨forall_copies main ?_ ?_, hnew, hkeep2⟩
  · rw [Copies.put_same]
    exact hnone
  · rw [Copies.put_not]
    exact hkeep1

end

/-! ### The functions for one chip -/

structure Knows (s : Setup) (m : Mem) (i : Nat) (spot : Bool → Nat) (c : Copies Bytes) : Prop where
  pages : ∀ main, (m.place main).pages i = (c main).map fun _ => spot main <<< s.dev.blocktopage
  version : ∀ main, (m.place main).version i = ((c main).map Prod.fst).getD 0

lemma shiftLeft_inj {a k : Nat} (h : a <<< k = b <<< k) : a = b := by
  rw [shiftLeft_eq, shiftLeft_eq] at h
  exact eq_of_mul_eq_mul_right (Nat.two_pow_pos k) h

lemma storedState_idem (x : BitVec 8) : storedState (storedState x) = storedState x := by
  unfold storedState
  by_cases h : x = 2
  · rw [if_pos h, if_neg (by decide)]
  · rw [if_neg h, if_neg h]

lemma NotBad.congr {bbt' : Bytes}
    (h : storedState (blockState bbt' b) = storedState (blockState bbt b)) (hgood : NotBad bbt b) :
    NotBad bbt' b := by
  unfold NotBad storedState at *
  rcases blockState_cases bbt b with hb | hb | hb | hb <;>
    rcases blockState_cases bbt' b with hb' | hb' | hb' | hb' <;> simp_all

section
variable {s : Setup} (hs : s.Sound) {i : Nat} {f : Flash}

lemma checkPlan_eq (hver : s.td.version = true)
    (hknow : Knows s m i spot c) (hchoose : c.choose = some main) (hx : c main = some x) :
    (c (!main) = some x ∧ main = true → checkPlan s m i = (.use true none false false, x.1, x.1)) ∧
    ((∀ y, c (!main) = some y → y.1 ≠ x.1) →
      checkPlan s m i = (.use main none (!main) main, x.1, x.1)) := by
  have htd : m.td.pages i = (c true).map fun _ => spot true <<< s.dev.blocktopage :=
    hknow.pages true
  have hmd : m.md.pages i = (c false).map fun _ => spot false <<< s.dev.blocktopage :=
    hknow.pages false
  have htv : m.td.version i = ((c true).map Prod.fst).getD 0 := hknow.version true
  have hmv : m.md.version i = ((c false).map Prod.fst).getD 0 := hknow.version false
  unfold checkPlan
  simp only [htd, hmd, htv, hmv, hver]
  unfold Copies.choose at hchoose
  cases ht : c true with
  | none =>
    cases hm : c false with
    | none => simp [ht, hm] at hchoose
    | some y =>
      simp only [ht, hm, Option.some.injEq] at hchoose
      subst hchoose
      rw [hm] at hx
      cases hx
      simp
  | some t =>
    cases hm : c false with
    | none =>
      simp only [ht, hm, Option.some.injEq] at hchoose
      subst hchoose
      rw [ht] at hx
      cases hx
      simp [hm]
    | some y =>
      simp only [ht, hm] at hchoose
      by_cases heq : t.1 = y.1
      · rw [if_pos heq] at hchoose
        cases hchoose
        rw [ht] at hx
        cases hx
        simp [hm, heq]
      rw [if_neg heq, Option.some.injEq] at hchoose
      by_cases hpos : 0 < (t.1 - y.1).toInt
      · rw [decide_eq_true hpos] at hchoose
        subst hchoose
        rw [ht] at hx
        cases hx
        simp only [map_some, getD_some, if_neg heq, if_pos hpos, Bool.not_true,
          hm, Option.some.injEq]
        exact ⟨fun h => absurd (congrArg Prod.fst h.1).symm heq, fun _ => trivial⟩
      rw [decide_eq_false hpos] at hchoose
      subst hchoose
      rw [hm] at hx
      cases hx
      simp only [map_some, getD_some, if_neg heq, if_neg hpos, Bool.not_false]
      exact ⟨fun h => absurd h.2 (by decide), fun _ => trivial⟩

lemma readTable_eq (retlen : Nat) (main : Bool) (chipsel : Option Nat) (m : Mem) :
    readTable s f retlen main chipsel m =
      (readAbsBbt s.dev f retlen (s.descr main) (m.place main) chipsel m.bbt).map
        fun r => { m with bbt := r.2 } := by
  cases main <;> rfl

include hs

lemma writeBbt_eq (hi : i < s.dev.chips s.td) {place other : Place}
    (h : writeChip s.dev f retlen (s.descr main) place other bbt i = ⟨0, p, ops⟩) :
    writeBbt s.dev f retlen (s.descr main) place other bbt (if s.td.perChip then some i else none)
      = ⟨0, p, ops⟩ := by
  unfold writeBbt
  rw [hs.perChip_eq]
  by_cases hper : s.td.perChip = true
  · rw [if_pos hper, if_pos hper]
    rw [writeChips, h]
    simp [writeChips]
  · rw [Device.chips, if_neg hper] at hi
    rw [if_neg hper, show 0 = i by omega, writeChips, h]
    simp [writeChips]

lemma writeTables_one
    (h : writeBbt s.dev f retlen (s.descr stale) (m.place stale) (m.place (!stale)) m.bbt chipsel
      = ⟨0, p, ops⟩) :
    writeTables s f retlen stale (!stale) chipsel m = ⟨0, m.setPlace stale p, ops⟩ := by
  unfold writeTables
  cases stale with
  | true =>
    have h' : writeBbt s.dev f retlen s.td m.td m.md m.bbt chipsel = ⟨0, p, ops⟩ := h
    simp [hs.td.write, h', Mem.setPlace]
  | false =>
    have h' : writeBbt s.dev f retlen s.md m.md m.td m.bbt chipsel = ⟨0, p, ops⟩ := h
    simp [hs.md.write, h', Mem.setPlace, Flash.run]

omit hs in
lemma Mem.place_setPlace (m : Mem) (stale : Bool) (p : Place) :
    (m.setPlace stale p).place stale = p ∧
      (m.setPlace stale p).place (!stale) = m.place (!stale) := by
  cases stale <;> exact ⟨rfl, rfl⟩

lemma ShowsAt.congr (T' : Bytes)
    (hT : ∀ x, s.InChip i x → storedState (blockState T' x) = storedState (blockState T x))
    (h : ShowsAt s f i main b (some (w, T))) : ShowsAt s f i main b (some (w, T')) := by
  obtain ⟨hrange, hfound, halone, hversion, htable⟩ := h
  refine ⟨hrange, hfound, halone, hversion, ?_⟩
  intro k hk
  rw [hs.numblocks_eq] at hk
  rw [htable k (by rw [hs.numblocks_eq]; exact hk), hs.numblocks_eq]
  exact (hT _ ⟨Nat.le_add_right _ _, by rw [succ_mul]; omega⟩).symm

lemma exists_block (hi : i < s.dev.chips s.td)
    (hspots : Spots s i spot) (hpages : ∀ main, (m.place main).pages i
      = (c main).map fun _ => spot main <<< s.dev.blocktopage) (hmain : c (!stale) ≠ none)
    (hgood : NotBad m.bbt (spot stale)) :
    ∃ b, (s.descr stale).InRange s.dev i b ∧ NotBad m.bbt b ∧ b ≠ spot (!stale) ∧
      (∀ y, c stale = some y → b = spot stale) ∧
      ((m.place stale).pages i = some (b <<< s.dev.blocktopage) ∨ (m.place stale).pages i = none ∧
          placeBbt s.dev (s.descr stale) (m.place (!stale)) m.bbt i =
            some (b <<< s.dev.blocktopage)) := by
  cases hc : c stale with
  | some y =>
    have hpage : (m.place stale).pages i = some (spot stale <<< s.dev.blocktopage) := by
      rw [hpages, hc]
      rfl
    exact ⟨spot stale, hspots.range stale, hgood, hspots.apart stale, fun _ _ => rfl, .inl hpage⟩
  | none =>
    have hpage : (m.place stale).pages i = none := by
      rw [hpages, hc]
      rfl
    have hother : (m.place (!stale)).pages i = some (spot (!stale) <<< s.dev.blocktopage) := by
      obtain ⟨x, hx⟩ := ne_none_iff_exists'.mp hmain
      rw [hpages, hx]
      rfl
    have hne : (m.place (!stale)).pages i ≠ some (spot stale <<< s.dev.blocktopage) := by
      rw [hother]
      intro heq
      exact hspots.apart stale (shiftLeft_inj (Option.some.inj heq)).symm
    obtain ⟨b, hplace, hrange, hgood', hne'⟩ := exists_placeBbt (hs.descr stale)
      (hs.lt_chips hi _) (hspots.range stale) hgood hne
    refine ⟨b, hrange, hgood', ?_, ?_, .inr ⟨hpage, hplace⟩⟩
    · intro heq
      rw [hother, heq] at hne'
      exact hne' rfl
    · intro y hy
      cases hy

omit hs in
lemma forall_moved {P : Bool → Nat → Prop} (hmoved : P stale b)
    (hkept : P (!stale) (spot (!stale))) : ∀ main, P main (update spot stale b main) := by
  refine forall_copies stale ?_ ?_
  · rw [update_self]
    exact hmoved
  · rw [update_of_ne (by simp)]
    exact hkept

omit hs in
lemma Spots.moved (h : Spots s i spot) (hrange : (s.descr stale).InRange s.dev i b)
    (hne : b ≠ spot (!stale)) :
    Spots s i (update spot stale b) := by
  refine ⟨forall_moved hrange (h.range _), forall_copies stale ?_ ?_⟩
  · rw [update_self, update_of_ne (by simp)]
    exact hne
  · rw [Bool.not_not, update_self, update_of_ne (by simp)]
    exact hne.symm

/-- A stale or missing copy is replaced by one with the version and the table that were taken. -/
theorem replace_stale (hi : i < s.dev.chips s.td) {v : BitVec 8}
    (h : StageAt s f i v old new spot c) (hx : c (!stale) = some x)
    (hnone : MirrorStage v old new (c.put stale none))
    (hsome : MirrorStage v old new (c.put stale (some x))) (hpages : ∀ main, (m.place main).pages i
      = (c main).map fun _ => spot main <<< s.dev.blocktopage)
    (hversion : ∀ main, (m.place main).version i = x.1)
    (hbbt : ∀ b, s.InChip i b → blockState m.bbt b = storedState (blockState x.2 b))
    (retlen : Nat) :
    ∃ p ops, writeTables s f retlen stale (!stale) (if s.td.perChip then some i else none) m
        = ⟨0, m.setPlace stale p, ops⟩ ∧
      AllPrefixes s.dev f ops (fun f' => ChipStage s f' i v old new ∧ Away s i f f') ∧
      (∃ spot', ChipSynced s (f.run s.dev ops) (m.setPlace stale p) i x.2 x.1 spot') ∧
      (∀ j, j ≠ i → p.pages j = (m.place stale).pages j) ∧ p.version = (m.place stale).version := by
  have hstored : ∀ b, s.InChip i b →
      storedState (blockState m.bbt b) = storedState (blockState x.2 b) := by
    intro b hb
    rw [hbbt b hb, storedState_idem]
  obtain ⟨b, hrange, hgood, hne, hspot, hpage⟩ :=
    exists_block hs hi h.spots hpages (by rw [hx]; simp)
    ((h.good _ x hx stale).congr (hstored _ (hs.inChip hi (h.spots.range stale))))
  have hchip := hs.inChip hi hrange
  obtain ⟨im, him, hwrite⟩ := writeChip_eq (hs.descr stale) _ _ (hs.lt_blocks hi hrange) hgood hpage
    f retlen
  rw [hversion] at him
  obtain ⟨herased, hnew, hkept⟩ := replace_copy hs him h.shows hrange hne hspot
  obtain ⟨haway, haway'⟩ := away_rewritten hs him f hchip
  replace hnew := hnew.congr hs x.2 fun b hb => (hstored b hb).symm
  rw [hx] at hkept
  -- the copies after the write, at their new blocks
  have hspots : Spots s i (update spot stale b) := h.spots.moved hrange hne
  have hgoods : ∀ main, NotBad x.2 (update spot stale b main) :=
    forall_moved (hgood.congr (hstored b hchip).symm) (h.good _ x hx _)
  have hshows : ∀ main, ShowsAt s (s.rewritten f b stale im) i main (update spot stale b main)
      (some x) :=
    forall_moved (P := fun main b' => ShowsAt s _ i main b' (some x)) hnew hkept
  have hput : ∀ main, c.put stale (some x) main = some x := by
    refine forall_copies stale ?_ ?_
    · exact Copies.put_same _ _ _
    · rw [Copies.put_not]
      exact hx
  refine ⟨_, _, writeTables_one hs (writeBbt_eq hs hi hwrite), ?_,
    ⟨_, hspots, hgoods, hshows, ?_, ?_⟩, fun j hj => if_neg hj, rfl⟩
  · refine AllPrefixes.cons ⟨⟨spot, c, h⟩, fun b' _ => SameBlock.refl _ _ _⟩
      (AllPrefixes.cons ⟨⟨spot, c.put stale none, h.spots, hnone, ?_, herased⟩, haway⟩
        (AllPrefixes.nil ⟨⟨_, _, hspots, hsome, ?_, ?_⟩, haway'⟩))
    · refine forall_copies stale ?_ ?_
      · intro y hy
        rw [Copies.put_same] at hy
        cases hy
      · intro y hy
        rw [Copies.put_not] at hy
        exact h.good _ y hy
    · intro main y hy
      rw [hput] at hy
      cases hy
      exact hgoods
    · intro main
      rw [hput]
      exact hshows main
  · refine forall_copies stale ?_ ?_
    · rw [(m.place_setPlace stale _).1, update_self]
      exact if_pos rfl
    · rw [(m.place_setPlace stale _).2, update_of_ne (by simp), hpages, hx]
      rfl
  · refine forall_copies stale ?_ ?_
    · rw [(m.place_setPlace stale _).1]
      exact hversion stale
    · rw [(m.place_setPlace stale _).2, hversion]

omit hs in
lemma Mem.place_setVersions (m : Mem) (i : Nat) (w : BitVec 8) (main : Bool) :
    ((m.setVersions i w w).place main).pages = (m.place main).pages ∧
      ∀ j, ((m.setVersions i w w).place main).version j
        = if j = i then w else (m.place main).version j := by
  cases main <;> exact ⟨rfl, fun _ => rfl⟩

def SameOthers (i : Nat) (m m' : Mem) : Prop :=
  ∀ j, j ≠ i → ∀ main, (m'.place main).pages j = (m.place main).pages j ∧
    (m'.place main).version j = (m.place main).version j

/-- `check_create` for one chip. It loads the old table or the new one, makes both copies equal, and
an interruption leaves a stage of the same update. -/
theorem checkCreateChip_stages (hi : i < s.dev.chips s.td) {v : BitVec 8}
    (h : StageAt s f i v old new spot c)
    (hknow : Knows s m i spot c) (hzero : ∀ b, s.InChip i b → blockState m.bbt b = 0)
    (retlen : Nat) :
    ∃ r T, checkCreateChip s f retlen m i = some r ∧ r.ret = 0 ∧ (T = old ∨ T = new) ∧
      AllPrefixes s.dev f r.ops (fun f' => ChipStage s f' i v old new ∧ Away s i f f') ∧
      (∃ w spot', ChipSynced s (f.run s.dev r.ops) r.mem i T w spot') ∧ (∀ b, blockState r.mem.bbt b
        = if s.InChip i b then storedState (blockState T b) else blockState m.bbt b) ∧
      SameOthers i m r.mem := by
  obtain ⟨main, x, hchoose, hx, hold, hcase⟩ := h.stage.choose
  have hplan := checkPlan_eq hs.td.version hknow hchoose hx
  have hplace := m.place_setVersions i x.1
  have hT : x.2 = old ∨ x.2 = new := by
    rcases hold with rfl | rfl
    · exact .inl rfl
    · exact .inr rfl
  -- the table that was taken is loaded
  have hpages : ∀ main, ((m.setVersions i x.1 x.1).place main).pages i
      = (c main).map fun _ => spot main <<< s.dev.blocktopage := by
    intro main
    rw [(hplace main).1, hknow.pages]
  have hshow := h.shows main
  rw [hx] at hshow
  obtain ⟨bbt, hread, hload⟩ := readAbsBbt_hasTable (hs.descr main)
    (hs.lt_chips hi _) (by rw [hpages main, hx]; rfl)
    (hs.lt_blocks hi (h.spots.range main)) hshow.2.2.2.2 retlen m.bbt
  rw [hs.perChip_eq] at hread
  have hbbt : ∀ b, blockState bbt b
      = if s.InChip i b then storedState (blockState x.2 b) else blockState m.bbt b := by
    intro b
    rw [hload b, hs.numblocks_eq]
    by_cases hb : s.InChip i b
    · rw [if_pos hb]
      refine (if_pos hb).trans ?_
      rw [hzero b hb]
      exact BitVec.zero_or
    · rw [if_neg hb]
      exact if_neg hb
  have htable : readTable s f retlen main (if s.td.perChip then some i else none)
      (m.setVersions i x.1 x.1) = some { m.setVersions i x.1 x.1 with bbt := bbt } := by
    rw [readTable_eq]
    show (readAbsBbt s.dev f retlen (s.descr main) _ _ m.bbt).map _ = _
    rw [hread]
    rfl
  have hothers : SameOthers i m (m.setVersions i x.1 x.1) := by
    intro j hj main
    rw [(hplace main).1, (hplace main).2, if_neg hj]
    exact ⟨rfl, rfl⟩
  unfold checkCreateChip
  rcases hcase with ⟨hsame, rfl⟩ | ⟨hdiff, hnone, hsome⟩
  · -- the copies are equal, and nothing is written
    rw [hplan.1 ⟨hsame, rfl⟩]
    simp only [htable]
    have hall : ∀ main, c main = some x := forall_copies true hx hsame
    refine ⟨_, x.2, rfl, rfl, hT, AllPrefixes.nil ⟨⟨spot, c, h⟩, fun b _ => SameBlock.refl _ _ _⟩,
      ⟨x.1, spot, h.spots, h.good true x hx, ?_, ?_, ?_⟩, hbbt, hothers⟩
    · intro main
      rw [← hall main]
      exact h.shows main
    · intro main
      have hpage := hpages main
      rw [hall main] at hpage
      exact hpage
    · intro main
      exact ((hplace main).2 i).trans (if_pos rfl)
  rw [hplan.2 hdiff]
  simp only [htable, bind_eq_bind, bind_some]
  obtain ⟨p, ops, hrun, hprefixes, hsynced, hp, hpv⟩ := replace_stale hs hi h
    (x := x) (by rw [Bool.not_not]; exact hx) hnone hsome
    (m := { m.setVersions i x.1 x.1 with bbt := bbt }) hpages
    (fun main => ((hplace main).2 i).trans (if_pos rfl))
    (fun b hb => by rw [hbbt b, if_pos hb]) retlen
  rw [Bool.not_not] at hrun
  rw [hrun]
  obtain ⟨spot', hsynced⟩ := hsynced
  refine ⟨_, x.2, rfl, rfl, hT, hprefixes, ⟨x.1, spot', hsynced⟩, ?_, ?_⟩
  · intro b
    rw [← hbbt b]
    cases main <;> rfl
  intro j hj
  refine forall_copies (!main) ?_ ?_
  · rw [(Mem.place_setPlace _ (!main) p).1, hp j hj, hpv]
    exact hothers j hj (!main)
  · rw [(Mem.place_setPlace _ (!main) p).2]
    exact hothers j hj _

lemma rewrite_copy (hspots : Spots s i spot)
    (hshows : ∀ main, ShowsAt s f i main (spot main) (c main))
    (him : bbtImage s.dev f0 retlen (s.descr main) w table i (spot main <<< s.dev.blocktopage) =
      .ok im) :
    (∀ m, ShowsAt s (s.erased f (spot main)) i m (spot m) (c.put main none m)) ∧
      ∀ m, ShowsAt s (s.rewritten f (spot main) main im) i m (spot m)
        (c.put main (some (w, table)) m) := by
  obtain ⟨herased, hnew, hkept⟩ := replace_copy hs him hshows (hspots.range main)
    (hspots.apart main)
    (fun _ _ => rfl)
  refine ⟨herased, forall_copies main ?_ ?_⟩
  · rw [Copies.put_same]
    exact hnew
  · rw [Copies.put_not]
    exact hkept

lemma writeTables_both {p' : Place} {ops' : List FlashOp}
    (h : writeBbt s.dev f retlen s.td m.td m.md m.bbt chipsel = ⟨0, p, ops⟩)
    (h' : writeBbt s.dev (f.run s.dev ops) retlen s.md m.md p m.bbt chipsel = ⟨0, p', ops'⟩) :
    writeTables s f retlen true true chipsel m =
      ⟨0, { m with td := p, md := p' }, ops ++ ops'⟩ := by
  simp [writeTables, hs.td.write, hs.md.write, h, h']

omit hs in
lemma Away.trans {f'' : Flash} (h : Away s i f f') (h' : Away s i f' f'') : Away s i f f'' :=
  fun b hb => (h b hb).trans (h' b hb)

lemma nandUpdateBbt_stages {offs : Nat} (hi : updateChip s offs < s.dev.chips s.td)
    (h : ChipSynced s f m (updateChip s offs) T w spot)
    (hgood : ∀ main, NotBad bbt (spot main)) (retlen : Nat) :
    ∃ r, nandUpdateBbt s f retlen { m with bbt := bbt } offs = r ∧
      AllPrefixes s.dev f r.ops (fun f' => ChipStage s f' (updateChip s offs) w T bbt ∧
        Away s (updateChip s offs) f f') ∧
      ChipSynced s (f.run s.dev r.ops) r.mem (updateChip s offs) bbt (w + 1) spot ∧
      SameOthers (updateChip s offs) m r.mem := by
  refine ⟨_, rfl, ?_⟩
  unfold nandUpdateBbt
  rw [show (if s.td.perChip = true then offs >>> s.dev.chipShift else 0) =
    updateChip s offs from rfl]
  generalize updateChip s offs = i at *
  have htv : m.td.version i = w := h.version true
  have hmv : m.md.version i = w := h.version false
  have hplace := Mem.place_setVersions { m with bbt := bbt } i (w + 1)
  simp only [htv, hmv]
  generalize hm1 : Mem.setVersions { m with bbt := bbt } i (w + 1) (w + 1) = m1 at *
  have hbbt : m1.bbt = bbt := by
    rw [← hm1]
    rfl
  have hpages : ∀ main, (m1.place main).pages i = some (spot main <<< s.dev.blocktopage) :=
    fun main => (congrFun (hplace main).1 i).trans (h.pages main)
  have hversion : ∀ main, (m1.place main).version i = w + 1 :=
    fun main => ((hplace main).2 i).trans (if_pos rfl)
  have hin : ∀ main, s.InChip i (spot main) := fun main => hs.inChip hi (h.spots.range main)
  have hlt : ∀ main, spot main < s.dev.numchips * s.dev.chipBlocks :=
    fun main => hs.lt_blocks hi (h.spots.range main)
  rw [← hbbt] at hgood
  -- the main table
  obtain ⟨im, him, hwrite⟩ := writeChip_eq (hs.descr true) (m1.place true) (m1.place false)
    (hlt true) (hgood true) (.inl (hpages true)) f retlen
  rw [hversion true, hbbt] at him
  obtain ⟨herased, hwritten⟩ := rewrite_copy hs h.spots (c := fun _ => some (w, T)) h.shows him
  obtain ⟨haway, haway'⟩ := away_rewritten hs him f (hin true)
  -- the mirror
  obtain ⟨im', him', hwrite'⟩ := writeChip_eq (hs.descr false) (m1.place false)
    ({ m1.place true with
      pages := fun j => if j = i then some (spot true <<< s.dev.blocktopage)
        else (m1.place true).pages j })
    (hlt false) (hgood false) (.inl (hpages false)) _ retlen
  rw [hversion false, hbbt] at him'
  obtain ⟨herased', hwritten'⟩ := rewrite_copy hs h.spots hwritten him'
  obtain ⟨haway3, haway4⟩ := away_rewritten hs him' _ (hin false)
  have hboth := writeTables_both hs (writeBbt_eq hs hi hwrite) (by exact writeBbt_eq hs hi hwrite')
  rw [hboth]
  rw [hbbt] at hgood
  have hstage : ∀ {f' : Flash} {c : Copies Bytes}, MirrorStage w T bbt c →
      (∀ m, ShowsAt s f' i m (spot m) (c m)) → ChipStage s f' i w T bbt := by
    intro f' c hc hshows
    refine ⟨spot, c, h.spots, hc, ?_, hshows⟩
    intro m x hx main
    rcases hc.old_or_new hx with rfl | rfl
    · exact h.good main
    · exact hgood main
  refine ⟨AllPrefixes.append
      (AllPrefixes.cons ⟨hstage (.before rfl rfl) h.shows, fun _ _ => SameBlock.refl _ _ _⟩ ?_) ?_,
    ⟨h.spots, hgood, ?_, ?_, ?_⟩, ?_⟩
  · exact AllPrefixes.cons ⟨hstage (.mainErased rfl rfl) herased, haway⟩
      (AllPrefixes.nil ⟨hstage (.mainWritten rfl rfl) hwritten, haway'⟩)
  · exact AllPrefixes.cons ⟨hstage (.mainWritten rfl rfl) hwritten, haway'⟩
      (AllPrefixes.cons ⟨hstage (.mirrorErased rfl rfl) herased', haway'.trans haway3⟩
        (AllPrefixes.nil ⟨hstage (.after rfl rfl) hwritten', haway'.trans haway4⟩))
  · exact forall_copies true (hwritten' true) (hwritten' false)
  · exact forall_copies true (if_pos rfl) (if_pos rfl)
  · exact forall_copies true (hversion true) (hversion false)
  intro j hj
  have hsame : ∀ main, (m1.place main).version j = (m.place main).version j := fun main =>
    ((hplace main).2 j).trans (if_neg hj)
  have hsame' : ∀ main, (m1.place main).pages j = (m.place main).pages j := fun main =>
    congrFun (hplace main).1 j
  exact forall_copies true ⟨(if_neg hj).trans (hsame' true), hsame true⟩
    ⟨(if_neg hj).trans (hsame' false), hsame false⟩

/-! ### All chips -/

/-- Before its turn in the loop: a stage, and what the search found of it. -/
def Pending (s : Setup) (f : Flash) (m : Mem) (i : Nat) (v : BitVec 8) (old new : Bytes) : Prop :=
  (∃ spot c, StageAt s f i v old new spot c ∧ Knows s m i spot c) ∧
    ∀ b, s.InChip i b → blockState m.bbt b = 0

/-- After its turn: one of the two tables is loaded, and both copies have it. -/
def Loaded (s : Setup) (f : Flash) (m : Mem) (i : Nat) (old new : Bytes) : Prop :=
  ∃ T, (T = old ∨ T = new) ∧ (∃ w spot, ChipSynced s f m i T w spot) ∧
    ∀ b, s.InChip i b → blockState m.bbt b = storedState (blockState T b)

lemma ChipSynced.away {m' : Mem} (hj : j < s.dev.chips s.td) (hij : j ≠ i)
    (haway : Away s i f f') (hsame : SameOthers i m m')
    (h : ChipSynced s f m j T w spot) : ChipSynced s f' m' j T w spot where
  spots := h.spots
  good := h.good
  shows main := (h.shows main).away hs hj hij haway
  pages main := (hsame j hij main).1.trans (h.pages main)
  version main := (hsame j hij main).2.trans (h.version main)

lemma ChipSynced.loaded (hi : i < s.dev.chips s.td) (h : ChipSynced s f m i T w spot)
    (hstate : ∀ b, s.InChip i b → blockState m.bbt b = storedState (blockState T b)) :
    ChipSynced s f m i m.bbt w spot where
  spots := h.spots
  good main := by
    apply (h.good main).congr
    rw [hstate _ (hs.inChip hi (h.spots.range main)), storedState_idem]
  shows main := by
    apply (h.shows main).congr hs
    intro b hb
    rw [hstate b hb, storedState_idem]
  pages := h.pages
  version := h.version

def Staged (s : Setup) (f : Flash) (v : Nat → BitVec 8) (old new : Nat → Bytes) : Prop :=
  ∀ j < s.dev.chips s.td, ChipStage s f j (v j) (old j) (new j)

/-- The run loads every chip, and the flash stays at a stage of the update. -/
def Loads (s : Setup) (f : Flash) (v : Nat → BitVec 8) (old new : Nat → Bytes)
    (run : Option Result) : Prop :=
  ∃ r, run = some r ∧ r.ret = 0 ∧ AllPrefixes s.dev f r.ops (fun f' => Staged s f' v old new) ∧
    ∀ j < s.dev.chips s.td, Loaded s (f.run s.dev r.ops) r.mem j (old j) (new j)

variable {v : Nat → BitVec 8} {old new : Nat → Bytes} (hstage : Staged s f v old new)
include hstage

lemma checkChips_stages {l : List Nat} (hl : ∀ j ∈ l, j < s.dev.chips s.td) (hnd : l.Nodup)
    (hpend : ∀ j ∈ l, Pending s f m j (v j) (old j) (new j))
    (hdone : ∀ j < s.dev.chips s.td, j ∉ l → Loaded s f m j (old j) (new j)) (retlen : Nat) :
    Loads s f v old new (checkChips s retlen l f m) := by
  induction l generalizing f m with
  | nil =>
    exact ⟨_, rfl, rfl, AllPrefixes.nil hstage, fun j hj => hdone j hj not_mem_nil⟩
  | cons i l ih =>
    obtain ⟨hi', hnd'⟩ := nodup_cons.mp hnd
    have hi := hl i mem_cons_self
    obtain ⟨⟨spot, c, hst, hknow⟩, hzero⟩ := hpend i mem_cons_self
    obtain ⟨r, T, hrun, hret, hT, hprefixes, hsynced, hbbt, hothers⟩ :=
      checkCreateChip_stages hs hi hst hknow hzero retlen
    have haway : Away s i f (f.run s.dev r.ops) := hprefixes.all.2
    -- the blocks of another chip keep their states
    have hkeep : ∀ j, j ≠ i → ∀ b, s.InChip j b → blockState r.mem.bbt b = blockState m.bbt b := by
      intro j hj b hb
      rw [hbbt b, if_neg fun hin => hj (hb.unique hin)]
    have hstage' : Staged s (f.run s.dev r.ops) v old new := by
      intro j hj
      by_cases hij : j = i
      · rw [hij]
        exact hprefixes.all.1
      · exact (hstage j hj).away hs hj hij haway
    have hpend' : ∀ j ∈ l, Pending s (f.run s.dev r.ops) r.mem j (v j) (old j) (new j) := by
      intro j hj
      have hij : j ≠ i := fun heq => hi' (heq ▸ hj)
      have hj' := hl j (mem_cons_of_mem _ hj)
      obtain ⟨⟨spot', c', hst', hknow'⟩, hzero'⟩ := hpend j (mem_cons_of_mem _ hj)
      refine ⟨⟨spot', c', ⟨hst'.spots, hst'.stage, hst'.good, ?_⟩, ⟨?_, ?_⟩⟩, ?_⟩
      · exact fun main => (hst'.shows main).away hs hj' hij haway
      · exact fun main => (hothers j hij main).1.trans (hknow'.pages main)
      · exact fun main => (hothers j hij main).2.trans (hknow'.version main)
      · intro b hb
        rw [hkeep j hij b hb, hzero' b hb]
    have hdone' : ∀ j < s.dev.chips s.td, j ∉ l → Loaded s (f.run s.dev r.ops) r.mem j (old j)
        (new j) := by
      intro j hj hjl
      by_cases hij : j = i
      · subst hij
        refine ⟨T, hT, hsynced, ?_⟩
        intro b hb
        rw [hbbt b, if_pos hb]
      obtain ⟨T', hT', ⟨w, spot', hsync⟩, hstate⟩ := hdone j hj fun hmem =>
        (mem_cons.mp hmem).elim hij hjl
      refine ⟨T', hT', ⟨w, spot', hsync.away hs hj hij haway hothers⟩, ?_⟩
      intro b hb
      rw [hkeep j hij b hb, hstate b hb]
    obtain ⟨r', hrun', hret', hprefixes', hloaded⟩ := ih hstage'
      (fun j hj => hl j (mem_cons_of_mem _ hj)) hnd' hpend' hdone'
    refine ⟨{ r' with ops := r.ops ++ r'.ops }, ?_, hret', ?_, ?_⟩
    · rw [checkChips, hrun, bind_eq_bind, bind_some, if_neg (by simp [hret]), hrun']
      rfl
    · refine AllPrefixes.append (hprefixes.imp ?_) hprefixes'
      intro f' hf' j hj
      by_cases hij : j = i
      · rw [hij]
        exact hf'.1
      · exact (hstage j hj).away hs hj hij hf'.2
    · rw [Flash.run_append]
      exact hloaded

lemma scanBbt_stages (retlen : Nat) : Loads s f v old new (scanBbt s f retlen) := by
  refine checkChips_stages hs hstage (fun j hj => mem_range.mp hj) nodup_range ?_ ?_ retlen
  · intro j hj
    obtain ⟨spot, c, hst⟩ := hstage j (mem_range.mp hj)
    have hfound : ∀ main, (searchBbt s.dev f (s.descr main)).pages j
          = (c main).map (fun _ => spot main <<< s.dev.blocktopage) ∧
        (searchBbt s.dev f (s.descr main)).version j = ((c main).map Prod.fst).getD 0 := by
      intro main
      have hsearch := searchBbt_shows (hs.descr main) (hst.shows main)
      rw [Option.map_map, Option.map_map] at hsearch
      exact hsearch
    refine ⟨⟨spot, c, hst, ⟨?_, ?_⟩⟩, ?_⟩
    · exact forall_copies true (hfound true).1 (hfound false).1
    · exact forall_copies true (hfound true).2 (hfound false).2
    · simp [blockState]
  · intro j hj hjl
    exact absurd (mem_range.mpr hj) hjl

omit hstage

/-! ### Runs -/

omit hs in
/-- The memory and the copies have the same tables. -/
def Synced (s : Setup) (x : Sys) : Prop :=
  ∃ m, x.mem = some m ∧ ∀ i < s.dev.chips s.td, ∃ w spot,
    ChipSynced s x.flash m i (x.table i) w spot

def Sys.Inv (s : Setup) (x : Sys) : Prop :=
  match x.mem with
  | some m => ∀ i < s.dev.chips s.td, ∃ w spot, ChipSynced s x.flash m i (x.table i) w spot
  | none => ∃ v : Nat → BitVec 8, ∀ i < s.dev.chips s.td,
      ChipStage s x.flash i (v i) (x.table i) (x.next i)

omit hs in
lemma ChipSynced.stage (h : ChipSynced s f m i T w spot) (new : Bytes) :
    ChipStage s f i w T new := by
  refine ⟨spot, fun _ => some (w, T), h.spots, .before rfl rfl, ?_, h.shows⟩
  intro _ x hx
  cases hx
  exact h.good

omit hs in
lemma Spared.notBad (h : ChipSynced s f m i T w spot) (hspared : Spared s m bbt i) (main : Bool) :
    NotBad bbt (spot main) := by
  apply hspared
  cases main with
  | true => exact .inl (h.pages true)
  | false => exact .inr (h.pages false)

lemma Sys.inv_step (e : Event) (x y : Sys) (hinv : x.Inv s) (hstep : Sys.Step s e x y) :
    y.Inv s := by
  unfold Sys.Inv at hinv
  cases e with
  | update offs bbt retlen =>
    obtain ⟨m, hm, hchip, hspared, rfl⟩ := hstep
    rw [hm] at hinv
    obtain ⟨w, spot, hsynced⟩ := hinv _ hchip
    obtain ⟨r, hrun, hprefixes, hnew, hothers⟩ :=
      nandUpdateBbt_stages hs hchip hsynced (hspared.notBad hsynced) retlen
    intro i hi
    show ∃ w spot, ChipSynced s _ _ i (if i = updateChip s offs then bbt else x.table i) w spot
    rw [hrun]
    by_cases heq : i = updateChip s offs
    · rw [if_pos heq, heq]
      exact ⟨_, _, hnew⟩
    · rw [if_neg heq]
      obtain ⟨w', spot', hsynced'⟩ := hinv i hi
      exact ⟨w', spot', hsynced'.away hs hi heq hprefixes.all.2 hothers⟩
  | lostUpdate offs bbt retlen k =>
    obtain ⟨m, hm, hchip, hspared, rfl⟩ := hstep
    rw [hm] at hinv
    obtain ⟨w, spot, hsynced⟩ := hinv _ hchip
    obtain ⟨r, hrun, hprefixes, -⟩ :=
      nandUpdateBbt_stages hs hchip hsynced (hspared.notBad hsynced) retlen
    have hall : ∀ i < s.dev.chips s.td, ∃ w, ChipStage s (x.flash.run s.dev (r.ops.take k)) i w
        (x.table i) (if i = updateChip s offs then bbt else x.next i) := by
      intro i hi
      by_cases heq : i = updateChip s offs
      · rw [if_pos heq, heq]
        exact ⟨w, (hprefixes k).1⟩
      · rw [if_neg heq]
        obtain ⟨w', spot', hsynced'⟩ := hinv i hi
        exact ⟨w', (hsynced'.stage (x.next i)).away hs hi heq (hprefixes k).2⟩
    choose! v hv using hall
    refine ⟨v, ?_⟩
    rw [hrun]
    exact hv
  | start retlen =>
    obtain ⟨hm, r, hrun, rfl⟩ := hstep
    rw [hm] at hinv
    obtain ⟨v, hstage⟩ := hinv
    obtain ⟨r', hrun', -, -, hloaded⟩ := scanBbt_stages hs hstage retlen
    cases hrun.symm.trans hrun'
    intro i hi
    obtain ⟨T, -, ⟨w, spot, hsynced⟩, hstate⟩ := hloaded i hi
    exact ⟨w, spot, hsynced.loaded hs hi hstate⟩
  | lostStart retlen k =>
    obtain ⟨hm, r, hrun, rfl⟩ := hstep
    rw [hm] at hinv
    obtain ⟨v, hstage⟩ := hinv
    obtain ⟨r', hrun', -, hprefixes, -⟩ := scanBbt_stages hs hstage retlen
    cases hrun.symm.trans hrun'
    rw [hm]
    exact ⟨v, hprefixes k⟩

/-- After any updates, interrupted ones and restarts, a start loads for every chip the table of the
last completed update or of the interrupted one, and then both copies have it. -/
theorem start_loads_before_or_after {x : Sys} (hreach : Reach (Synced s) (Sys.Step s) x)
    (hoff : x.mem = none) (retlen : Nat) :
    ∃ r, scanBbt s x.flash retlen = some r ∧ r.ret = 0 ∧ ∀ i < s.dev.chips s.td,
      ((∀ b, s.InChip i b → blockState r.mem.bbt b = storedState (blockState (x.table i) b)) ∨
        (∀ b, s.InChip i b → blockState r.mem.bbt b = storedState (blockState (x.next i) b))) ∧
      ∃ w spot, ChipSynced s (x.flash.run s.dev r.ops) r.mem i r.mem.bbt w spot := by
  have hinv : x.Inv s := by
    refine hreach.invariant (Sys.Inv s) ?_ (Sys.inv_step hs)
    rintro y ⟨m, hm, hsynced⟩
    unfold Sys.Inv
    rw [hm]
    exact hsynced
  unfold Sys.Inv at hinv
  rw [hoff] at hinv
  obtain ⟨v, hstage⟩ := hinv
  obtain ⟨r, hrun, hret, -, hloaded⟩ := scanBbt_stages hs hstage retlen
  refine ⟨r, hrun, hret, ?_⟩
  intro i hi
  obtain ⟨T, hT, ⟨w, spot, hsynced⟩, hstate⟩ := hloaded i hi
  refine ⟨?_, w, spot, hsynced.loaded hs hi hstate⟩
  rcases hT with rfl | rfl
  · exact .inl hstate
  · exact .inr hstate

end

def smallSetup (d : Descr) : Setup :=
  { dev := smallDevice, td := d, md := { d with pattern := [0x31, 0x74, 0x62, 0x42] }
    createEmptyBbt := false, createBbt := fun _ bbt => bbt }

def smallOp (s : Setup) (main : Bool) (b : Nat) : List FlashOp :=
  match bbtImage s.dev ⟨fun _ => 0xff, fun _ _ => 0xff⟩ 0 (s.descr main) 1 mixedTable 0
    (b <<< s.dev.blocktopage) with
  | .ok im => [im.writeOp (s.descr main)]
  | .error _ => []

def smallFlash (d : Descr) : Flash :=
  Flash.run smallDevice ⟨fun _ => 0xff, fun _ _ => 0xff⟩
    (smallOp (smallSetup d) true 15 ++ smallOp (smallSetup d) false 14)

def smallSys (d : Descr) : Sys :=
  { flash := smallFlash d
    mem := some
      { bbt := mixedTable, td := ⟨fun _ => some 30, fun _ => 1⟩,
        md := ⟨fun _ => some 28, fun _ => 1⟩ }
    table := fun _ => mixedTable, next := fun _ => mixedTable }

lemma smallSetup_spared (d : Descr) :
    Spared (smallSetup d) ⟨mixedTable, ⟨fun _ => some 30, fun _ => 1⟩,
      ⟨fun _ => some 28, fun _ => 1⟩⟩
      mixedTable 0 := by
  intro b hb
  have hblock : b = 15 ∨ b = 14 := by
    rcases hb with h | h
    · exact .inl (shiftLeft_inj (k := 1) (Option.some.inj h)).symm
    · exact .inr (shiftLeft_inj (k := 1) (Option.some.inj h)).symm
  rcases hblock with rfl | rfl <;> decide

/-- The power is lost after the erase of the main table, and the mirror is loaded. -/
theorem smallSetup_start :
    ∃ x, Reach (Synced (smallSetup oobDescr)) (Sys.Step (smallSetup oobDescr)) x ∧ x.mem = none ∧
      ∃ r, scanBbt (smallSetup oobDescr) x.flash 0 = some r ∧ r.ret = 0 ∧
        ∀ b < 16, blockState r.mem.bbt b = storedState (blockState mixedTable b) := by
  have hs : (smallSetup oobDescr).Sound := by
    refine ⟨?_, ?_, rfl, ⟨rfl, rfl, 0, by decide, by decide, by decide⟩⟩
    all_goals exact ⟨by decide, rfl, ⟨by decide, by decide, by decide⟩, rfl, rfl,
      rfl, by decide, by decide,
      by decide, by decide, ⟨0, by decide, by decide⟩, by decide, fun _ => .inl rfl⟩
  have halone : ∀ main, ∀ k < 4, checkPattern smallDevice (smallFlash oobDescr)
      ((smallSetup oobDescr).descr main) (15 - k) = true → 15 - k = if main then 15 else 14 := by
    decide +kernel
  have hsynced : Synced (smallSetup oobDescr) (smallSys oobDescr) := by
    refine ⟨_, rfl, ?_⟩
    intro i hi
    have hzero : i = 0 := lt_one_iff.mp hi
    subst hzero
    refine ⟨1, fun main => if main then 15 else 14, ⟨?_, by decide⟩,
      forall_copies true ⟨by decide, by decide⟩ ⟨by decide, by decide⟩, ?_, by decide, by decide⟩
    · exact forall_copies true ⟨0, by decide, by decide⟩ ⟨1, by decide, by decide⟩
    refine forall_copies true
      ⟨⟨0, by decide, by decide⟩, by decide +kernel, ?_, by decide +kernel, ?_⟩
      ⟨⟨1, by decide, by decide⟩, by decide +kernel, ?_, by decide +kernel, ?_⟩
    · rintro b ⟨k, hk, rfl⟩ hcheck
      exact halone true k hk hcheck
    · show ∀ i < 16, _
      decide +kernel
    · rintro b ⟨k, hk, rfl⟩ hcheck
      exact halone false k hk hcheck
    · show ∀ i < 16, _
      decide +kernel
  obtain ⟨x, hstep, hoff, htable, hnext⟩ : ∃ x,
      Sys.Step (smallSetup oobDescr) (.lostUpdate 0 mixedTable 0 1) (smallSys oobDescr) x ∧
        x.mem = none ∧ x.table 0 = mixedTable ∧ x.next 0 = mixedTable :=
    ⟨_, ⟨_, rfl, by decide, smallSetup_spared oobDescr, rfl⟩, rfl, rfl, rfl⟩
  have hreach := Reach.next _ (Reach.start hsynced) hstep
  obtain ⟨r, hrun, hret, hall⟩ := start_loads_before_or_after hs hreach hoff 0
  refine ⟨x, hreach, hoff, r, hrun, hret, ?_⟩
  intro b hb
  have hchip : (smallSetup oobDescr).InChip 0 b := ⟨Nat.zero_le b, hb⟩
  rcases (hall 0 (by decide)).1 with h | h
  · rw [h b hchip, htable]
  · rw [h b hchip, hnext]

/-- With the marker in the page the device is too small: both copies have the table, but a start
loads one without the bad blocks. -/
theorem smallSetup_noOob_forgets :
    (searchBbt smallDevice (smallFlash noOobDescr) noOobDescr).pages 0 = some 30 ∧
    (searchBbt smallDevice (smallFlash noOobDescr) noOobDescr).version 0 = 1 ∧
    (smallFlash noOobDescr).HasTable smallDevice noOobDescr 30 0 mixedTable ∧
    (smallFlash noOobDescr).HasTable smallDevice (smallSetup noOobDescr).md 28 0 mixedTable ∧
    ∃ x, Sys.Step (smallSetup noOobDescr) (.lostUpdate 0 mixedTable 0 0) (smallSys noOobDescr) x ∧
      x.table 0 = mixedTable ∧ x.next 0 = mixedTable ∧
      ∃ r, scanBbt (smallSetup noOobDescr) x.flash 0 = some r ∧ r.ret = 0 ∧
        blockState r.mem.bbt 1 = 0 ∧ blockState mixedTable 1 = 1 := by
  refine ⟨by decide +kernel, by decide +kernel, ?_, ?_, ?_⟩
  · show ∀ i < 16, _
    decide +kernel
  · show ∀ i < 16, _
    decide +kernel
  · exact ⟨_, ⟨_, rfl, by decide, smallSetup_spared noOobDescr, rfl⟩, rfl, rfl, _, rfl, rfl,
      rfl, by decide⟩

end Wm8850.Nand.Bbt
