import Wm8850.Udc.Pdma

/-! # Which chains of descriptors are well formed

The last part gets its end bit only if it is shorter than 32 KB. The branch of a long descriptor is
a virtual address. Short descriptors are written at a distance of four bytes, so each one but the
last loses its address to the first word of the next. `LongAt` and `ShortAt` are what the loop
leaves in memory, `ChainFits` is when that is a chain. -/

namespace Wm8850.Udc

open Function Nat

variable {t : DesType} {cut : BitVec 16} {mem : Mem} {vir phy res n k a : Nat} {dma : BitVec 32}

/-- The number of parts of 32 KB. -/
def parts (size : Nat) : Nat := (size + 0x7fff) / 0x8000

/-- The first word of the descriptor with `res` bytes left, over the word that was there. -/
def desWord (t : DesType) (cut : BitVec 16) (old : BitVec 32) (res : Nat) : BitVec 32 :=
  word0 old (if res ≤ 32767 then BitVec.ofNat 16 res else 0x8000 - cut) (decide (res ≤ 32767))
    (t = .long) (decide (res ≤ 32767))

lemma getLsbD_desWord (t : DesType) (cut : BitVec 16) (old : BitVec 32) (res : Nat) :
    (desWord t cut old res).getLsbD 31 = decide (res ≤ 32767) ∧
      (desWord t cut old res).getLsbD 16 = decide (res ≤ 32767) := by
  simp only [desWord, word0, BitVec.getLsbD_append]
  simp

/-! ### One descriptor -/

lemma size_short : DesType.short.size = 4 := rfl

lemma size_long : DesType.long.size = 16 := rfl

lemma writeDes_word : writeDes t cut mem vir dma res vir = desWord t cut (mem vir) res := by
  unfold writeDes desWord
  split_ifs <;> simp_all

lemma writeDes_addr : writeDes t cut mem vir dma res (vir + 4) = dma := by
  unfold writeDes
  split_ifs <;> simp

lemma writeDes_branch : writeDes .long cut mem vir dma res (vir + 8) =
    if res ≤ 32767 then 0 else BitVec.ofNat 32 (vir + 16) := by
  unfold writeDes
  simp [DesType.size]

lemma writeDes_of_lt (h : a < vir) : writeDes t cut mem vir dma res a = mem a := by
  unfold writeDes
  split_ifs <;> simp [show a ≠ vir by omega, show a ≠ vir + 4 by omega, show a ≠ vir + 8 by omega]

/-! ### The loop -/

/-- One round of the loop, which is not the last one for 32 KB and more. -/
lemma desLoop_succ {rounds : Nat} (hres : 0 < res) : desLoop t cut (rounds + 1) mem vir dma res =
    if res ≤ 32767 then (writeDes t cut mem vir dma res, 1)
    else
      ((desLoop t cut rounds (writeDes t cut mem vir dma res) (vir + t.size) (dma + 0x8000)
          (res - 0x8000)).1,
        (desLoop t cut rounds (writeDes t cut mem vir dma res) (vir + t.size) (dma + 0x8000)
          (res - 0x8000)).2 + 1) := by
  rw [desLoop, if_neg (by omega)]

lemma desLoop_zero {rounds : Nat} : desLoop t cut rounds mem vir dma 0 = (mem, 0) := by
  cases rounds <;> rfl

/-- The loop writes one descriptor for each part, from `vir` on. -/
lemma desLoop_count {rounds : Nat} (hrounds : res ≤ rounds) :
    (desLoop t cut rounds mem vir dma res).2 = parts res ∧
      ∀ a < vir, (desLoop t cut rounds mem vir dma res).1 a = mem a := by
  induction rounds generalizing mem vir dma res with
  | zero =>
    obtain rfl : res = 0 := by omega
    exact ⟨rfl, fun _ _ => rfl⟩
  | succ rounds ih =>
    obtain rfl | hres := Nat.eq_zero_or_pos res
    · exact ⟨rfl, fun _ _ => rfl⟩
    rw [desLoop_succ hres]
    split
    · exact ⟨show 1 = _ by rw [parts]; omega, fun a ha => writeDes_of_lt ha⟩
    · obtain ⟨hcount, hframe⟩ := @ih (writeDes t cut mem vir dma res) (vir + t.size) (res - 0x8000)
        (dma + 0x8000) (by omega)
      refine ⟨?_, fun a ha => (hframe a (by omega)).trans (writeDes_of_lt ha)⟩
      rw [parts] at hcount ⊢
      dsimp only
      omega

/-- What the loop leaves of the long descriptor `k`. -/
structure LongAt (cut : BitVec 16) (mem : Mem) (vir : Nat) (dma : BitVec 32) (res k : Nat) :
    Prop where
  word : ∃ old, mem (vir + 16 * k) = desWord .long cut old (res - 0x8000 * k)
  addr : mem (vir + 16 * k + 4) = dma + BitVec.ofNat 32 (0x8000 * k)
  branch : 32767 < res - 0x8000 * k → mem (vir + 16 * k + 8) = BitVec.ofNat 32 (vir + 16 * (k + 1))

lemma dma_succ (dma : BitVec 32) (k : Nat) :
    dma + 0x8000 + BitVec.ofNat 32 (0x8000 * k) = dma + BitVec.ofNat 32 (0x8000 * (k + 1)) := by
  rw [mul_succ, add_comm (0x8000 * k), BitVec.ofNat_add, ← BitVec.add_assoc]
  rfl

lemma desLoop_long {rounds : Nat} (hrounds : res ≤ rounds) (hk : k < parts res) :
    LongAt cut (desLoop .long cut rounds mem vir dma res).1 vir dma res k := by
  induction rounds generalizing mem vir dma res k with
  | zero =>
    rw [parts] at hk
    omega
  | succ rounds ih =>
    have hres : 0 < res := by
      rw [parts] at hk
      omega
    rw [desLoop_succ hres]
    split
    · rename_i hlast
      obtain rfl : k = 0 := by
        rw [parts] at hk
        omega
      refine ⟨⟨mem vir, ?_⟩, ?_, fun hlt => by omega⟩
      · show writeDes .long cut mem vir dma res vir = _
        exact writeDes_word
      · show writeDes .long cut mem vir dma res (vir + 4) = _
        rw [writeDes_addr, mul_zero, BitVec.add_zero]
    rename_i hlast
    cases k with
    | zero =>
      -- the rounds behind write at the next descriptor and above
      obtain ⟨-, hframe⟩ := @desLoop_count .long cut (writeDes .long cut mem vir dma res) (vir + 16)
        (res - 0x8000) (dma + 0x8000) rounds (by omega)
      refine ⟨⟨mem vir, ?_⟩, ?_, fun _ => ?_⟩
      · exact (hframe vir (by omega)).trans writeDes_word
      · exact (hframe (vir + 4) (by omega)).trans (writeDes_addr.trans (BitVec.add_zero dma).symm)
      · exact (hframe (vir + 8) (by omega)).trans (writeDes_branch.trans (if_neg hlast))
    | succ k =>
      have hrest : LongAt cut (desLoop .long cut rounds (writeDes .long cut mem vir dma res)
          (vir + 16)
          (dma + 0x8000) (res - 0x8000)).1 (vir + 16) (dma + 0x8000) (res - 0x8000) k :=
        ih (by omega) (by rw [parts] at hk ⊢; omega)
      have hvir : vir + 16 + 16 * k = vir + 16 * (k + 1) := by omega
      have hleft : res - 0x8000 - 0x8000 * k = res - 0x8000 * (k + 1) := by omega
      refine ⟨?_, ?_, ?_⟩
      · rw [← hvir, ← hleft]
        exact hrest.word
      · rw [← hvir, ← dma_succ]
        exact hrest.addr
      · rw [← hvir, ← hleft, show vir + 16 * (k + 1 + 1) = vir + 16 + 16 * (k + 1) by omega]
        exact hrest.branch

/-- What the loop leaves of the short descriptor `k`: its address, if no other one follows, and else
the first word of the next one over it. -/
structure ShortAt (cut : BitVec 16) (mem : Mem) (vir : Nat) (dma : BitVec 32) (res k : Nat) :
    Prop where
  word : ∃ old, mem (vir + 4 * k) = desWord .short cut old (res - 0x8000 * k)
  addr : mem (vir + 4 * k + 4) =
    if k + 1 < parts res then
      desWord .short cut (dma + BitVec.ofNat 32 (0x8000 * k)) (res - 0x8000 * (k + 1))
    else dma + BitVec.ofNat 32 (0x8000 * k)

lemma desLoop_first {rounds : Nat} (hrounds : res ≤ rounds) (hres : 0 < res) :
    (desLoop .short cut rounds mem vir dma res).1 vir = desWord .short cut (mem vir) res := by
  obtain ⟨rounds, rfl⟩ : ∃ m, rounds = m + 1 := ⟨rounds - 1, by omega⟩
  rw [desLoop_succ hres]
  split
  · show writeDes .short cut mem vir dma res vir = _
    exact writeDes_word
  · obtain ⟨-, hframe⟩ := @desLoop_count .short cut (writeDes .short cut mem vir dma res) (vir + 4)
      (res - 0x8000) (dma + 0x8000) rounds (by omega)
    exact (hframe vir (by omega)).trans writeDes_word

lemma desLoop_short {rounds : Nat} (hrounds : res ≤ rounds) (hk : k < parts res) :
    ShortAt cut (desLoop .short cut rounds mem vir dma res).1 vir dma res k := by
  induction rounds generalizing mem vir dma res k with
  | zero =>
    rw [parts] at hk
    omega
  | succ rounds ih =>
    have hres : 0 < res := by
      rw [parts] at hk
      omega
    cases k with
    | zero =>
      refine ⟨⟨mem vir, desLoop_first hrounds hres⟩, ?_⟩
      rw [desLoop_succ hres]
      simp only [mul_zero, add_zero, zero_add, mul_one, BitVec.ofNat_eq_ofNat, BitVec.add_zero]
      split
      · rename_i hlast
        rw [if_neg (by rw [parts]; omega)]
        show writeDes .short cut mem vir dma res (vir + 4) = _
        exact writeDes_addr
      rename_i hlast
      obtain heq | hmore : res = 0x8000 ∨ 0x8000 < res := by omega
      · rw [if_neg (by rw [parts]; omega), heq, Nat.sub_self, desLoop_zero]
        show writeDes .short cut mem vir dma 0x8000 (vir + 4) = _
        exact writeDes_addr
      · rw [if_pos (by rw [parts]; omega)]
        exact (desLoop_first (by omega) (by omega)).trans (by rw [size_short, writeDes_addr])
    | succ k =>
      have hlast : ¬res ≤ 32767 := by
        rw [parts] at hk
        omega
      rw [desLoop_succ hres, if_neg hlast]
      have hparts : parts res = parts (res - 0x8000) + 1 := by
        rw [parts, parts]
        omega
      have hrest : ShortAt cut (desLoop .short cut rounds (writeDes .short cut mem vir dma res)
          (vir + 4)
          (dma + 0x8000) (res - 0x8000)).1 (vir + 4) (dma + 0x8000) (res - 0x8000) k :=
        ih (by omega) (by omega)
      have hvir : vir + 4 + 4 * k = vir + 4 * (k + 1) := by omega
      have hleft : ∀ k, res - 0x8000 - 0x8000 * k = res - 0x8000 * (k + 1) := by omega
      refine ⟨?_, ?_⟩
      · rw [← hvir, ← hleft]
        exact hrest.word
      · rw [← hvir, ← dma_succ, ← hleft, hparts]
        simp only [Nat.add_lt_add_iff_right]
        exact hrest.addr

/-! ### Chains -/

/-- The descriptors of the parts are a chain. -/
def IsChain (c : Config) (mem : Mem) (size : Nat) (dmaPhy : BitVec 32) (t : DesType)
    (ch : Channel) :
    Prop :=
  (wmtUdcPdmaDesPrepare c mem size dmaPhy t ch).2 = parts size ∧
    ∀ k < parts size, Describes t (wmtUdcPdmaDesPrepare c mem size dmaPhy t ch).1
      (c.desVirAddr t ch)
      (c.desPhyAddr t ch) dmaPhy (parts size) k

/-- When the code builds a chain. The last part is not a whole one. Long descriptors have the same
physical and virtual address if there is more than one. Of short descriptors there is only one, or
two if the word of the second one happens to be the address of the first. -/
def ChainFits (c : Config) (size : Nat) (dmaPhy : BitVec 32) (t : DesType) (ch : Channel) : Prop :=
  size % 0x8000 ≠ 0 ∧
    match t with
    | .mix => False
    | .long => 0x8000 < size →
        BitVec.ofNat 32 (c.desVirAddr .long ch) = BitVec.ofNat 32 (c.desPhyAddr .long ch)
    | .short => size < 0x8000 ∨ size < 0x10000 ∧
        word0 dmaPhy (BitVec.ofNat 16 (size - 0x8000)) true false true = dmaPhy

lemma last_iff (hk : k < parts res) (hres : res % 0x8000 ≠ 0) :
    res - 0x8000 * k ≤ 32767 ↔ k + 1 = parts res := by
  rw [parts] at hk ⊢
  omega

/-- The end bit of the last part is missing if it is a whole one. -/
lemma not_last (hsize : 0 < res) (hres : res % 0x8000 = 0) :
    ¬res - 0x8000 * (parts res - 1) ≤ 32767 := by
  rw [parts]
  omega

lemma ofNat_add_right_cancel {x y d : Nat} (h : BitVec.ofNat 32 (x + d) = BitVec.ofNat 32 (y + d)) :
    BitVec.ofNat 32 x = BitVec.ofNat 32 y := by
  rw [BitVec.ofNat_add, BitVec.ofNat_add] at h
  exact (BitVec.add_left_inj _).mp h

lemma long_chain_iff (c : Config) (mem : Mem) {size : Nat} (dmaPhy : BitVec 32) (ch : Channel)
    (hsize : 0 < size) : IsChain c mem size dmaPhy .long ch ↔ ChainFits c size dmaPhy .long ch := by
  have hat : ∀ k < parts size, LongAt (c.cutSize ch)
      (wmtUdcPdmaDesPrepare c mem size dmaPhy .long ch).1
      (c.desVirAddr .long ch) dmaPhy size k := fun k hk => desLoop_long le_rfl hk
  have hcount : (wmtUdcPdmaDesPrepare c mem size dmaPhy .long ch).2 = parts size :=
    (desLoop_count le_rfl).1
  have hpos : 0 < parts size := by
    rw [parts]
    omega
  constructor
  · rintro ⟨-, hall⟩
    have hwhole : size % 0x8000 ≠ 0 := by
      intro hzero
      obtain ⟨old, hword⟩ := (hat (parts size - 1) (by omega)).word
      have hfin := (hall (parts size - 1) (by omega)).fin
      rw [size_long, hword, (getLsbD_desWord ..).1, decide_eq_decide] at hfin
      exact not_last hsize hzero (hfin.mpr (by omega))
    refine ⟨hwhole, fun hlt => ?_⟩
    have htwo : 0 + 1 < parts size := by
      rw [parts]
      omega
    have hbranch := (hall 0 hpos).branch rfl htwo
    rw [size_long, (hat 0 hpos).branch (by omega)] at hbranch
    exact ofNat_add_right_cancel hbranch
  · rintro ⟨hwhole, hphy⟩
    refine ⟨hcount, fun k hk => ?_⟩
    obtain ⟨⟨old, hword⟩, haddr, hbranch⟩ := hat k hk
    have hlast := last_iff hk hwhole
    refine ⟨?_, ?_, haddr, fun _ hlt => ?_⟩
    · rw [size_long, hword, (getLsbD_desWord ..).1, decide_eq_decide, hlast]
    · rw [size_long, hword, (getLsbD_desWord ..).2, decide_eq_decide, hlast]
    · have hmore : 0x8000 < size := by
        rw [parts] at hlt
        omega
      rw [size_long, hbranch (by omega), BitVec.ofNat_add, hphy hmore, ← BitVec.ofNat_add]

lemma setWidth_word0 (old : BitVec 32) (r : BitVec 16) (i f e : Bool) :
    (word0 old r i f e).setWidth 16 = r := by
  rw [word0, BitVec.setWidth_append]
  simp

lemma getLsbD_word0 (old : BitVec 32) (r : BitVec 16) (i f e : Bool) :
    (word0 old r i f e).getLsbD 31 = e ∧ (word0 old r i f e).getLsbD 30 = f := by
  simp only [word0, BitVec.getLsbD_append]
  simp

/-- Of three short descriptors the first two cannot both keep their address. -/
lemma short_three (cut : BitVec 16) (dma : BitVec 32) {res : Nat} (hres : 0x10000 < res)
    (hfirst : desWord .short cut dma (res - 0x8000) = dma)
    (hsecond : desWord .short cut (dma + 0x8000) (res - 0x10000) = dma + 0x8000) : False := by
  have hnot : ¬res - 0x8000 ≤ 32767 := by omega
  rw [desWord, if_neg hnot, decide_eq_false hnot] at hfirst
  rw [desWord] at hsecond
  by_cases hlast : res - 0x10000 ≤ 32767
  · -- the second address has the end bit, the first one not
    rw [decide_eq_true hlast] at hsecond
    obtain ⟨h31, h30⟩ := getLsbD_word0 dma (0x8000 - cut) false (DesType.short = .long) false
    obtain ⟨h31', -⟩ := getLsbD_word0 (dma + 0x8000)
      (if res - 0x10000 ≤ 32767 then BitVec.ofNat 16 (res - 0x10000) else 0x8000 - cut) true
      (DesType.short = .long) true
    rw [hfirst] at h31 h30
    rw [hsecond] at h31'
    have hsmall : dma.toNat < 2 ^ 30 := by
      refine Nat.lt_pow_two_of_testBit _ fun i hi => ?_
      obtain rfl | rfl | hge : i = 30 ∨ i = 31 ∨ 32 ≤ i := by omega
      · exact h30
      · exact h31
      · exact BitVec.getLsbD_of_ge dma i hge
    have hsum : (dma + 0x8000).toNat < 2 ^ 31 := by
      rw [BitVec.toNat_add]
      exact lt_of_le_of_lt (Nat.mod_le _ _) (by simp; omega)
    rw [BitVec.getLsbD, Nat.testBit_lt_two_pow hsum] at h31'
    cases h31'
  · -- both have the same low half
    rw [if_neg hlast] at hsecond
    have hlow := congrArg (BitVec.setWidth 16) hfirst
    have hlow' := congrArg (BitVec.setWidth 16) hsecond
    rw [setWidth_word0] at hlow hlow'
    rw [BitVec.setWidth_add _ _ (by decide), ← hlow] at hlow'
    have hself : (0x8000 - cut : BitVec 16) ≠
        (0x8000 - cut) + BitVec.setWidth 16 (0x8000 : BitVec 32) := by
      generalize (0x8000 - cut : BitVec 16) = x
      bv_omega
    exact hself hlow'

lemma short_chain_iff (c : Config) (mem : Mem) {size : Nat} (dmaPhy : BitVec 32) (ch : Channel)
    (hsize : 0 < size) : IsChain c mem size dmaPhy .short ch ↔
      ChainFits c size dmaPhy .short ch := by
  have hat : ∀ k < parts size, ShortAt (c.cutSize ch)
      (wmtUdcPdmaDesPrepare c mem size dmaPhy .short ch).1 (c.desVirAddr .short ch) dmaPhy size k :=
    fun k hk => desLoop_short le_rfl hk
  have hcount : (wmtUdcPdmaDesPrepare c mem size dmaPhy .short ch).2 = parts size :=
    (desLoop_count le_rfl).1
  have hpos : 0 < parts size := by
    rw [parts]
    omega
  -- the first address is kept, or it is the word of the second descriptor
  have hzero : ∀ {n}, Describes .short (wmtUdcPdmaDesPrepare c mem size dmaPhy .short ch).1
      (c.desVirAddr .short ch) (c.desPhyAddr .short ch) dmaPhy n 0 → 1 < parts size →
      desWord .short (c.cutSize ch) dmaPhy (size - 0x8000) = dmaPhy := by
    intro n hdes hlt
    have haddr := hdes.addr
    rw [size_short, (hat 0 hpos).addr, if_pos (by omega)] at haddr
    simpa using haddr
  constructor
  · rintro ⟨-, hall⟩
    have hwhole : size % 0x8000 ≠ 0 := by
      intro hmul
      obtain ⟨old, hword⟩ := (hat (parts size - 1) (by omega)).word
      have hfin := (hall (parts size - 1) (by omega)).fin
      rw [size_short, hword, (getLsbD_desWord ..).1, decide_eq_decide] at hfin
      exact not_last hsize hmul (hfin.mpr (by omega))
    refine ⟨hwhole, ?_⟩
    by_cases hone : size < 0x8000
    · exact .inl hone
    have htwo : 1 < parts size := by
      rw [parts]
      omega
    have hfirst := hzero (hall 0 hpos) htwo
    have htwice : size < 0x10000 := by
      by_contra hmore
      have hthree : 1 + 1 < parts size := by
        rw [parts]
        omega
      have haddr := (hall 1 htwo).addr
      rw [size_short, (hat 1 htwo).addr, if_pos hthree] at haddr
      exact short_three _ dmaPhy (show 0x10000 < size by omega) hfirst (by simpa using haddr)
    have hlast : size - 0x8000 ≤ 32767 := by omega
    rw [desWord, if_pos hlast, decide_eq_true hlast] at hfirst
    exact .inr ⟨htwice, hfirst⟩
  · rintro ⟨hwhole, hfits⟩
    refine ⟨hcount, fun k hk => ?_⟩
    obtain ⟨⟨old, hword⟩, haddr⟩ := hat k hk
    have hlast := last_iff hk hwhole
    refine ⟨?_, ?_, ?_, fun h => by cases h⟩
    · rw [size_short, hword, (getLsbD_desWord ..).1, decide_eq_decide, hlast]
    · rw [size_short, hword, (getLsbD_desWord ..).2, decide_eq_decide, hlast]
    · rw [size_short, haddr]
      split
      · rename_i hlt
        obtain hone | ⟨htwo, hsame⟩ := hfits
        · rw [parts] at hlt
          omega
        have hk0 : k = 0 := by
          rw [parts] at hlt
          omega
        have hrest : size - 0x8000 ≤ 32767 := by omega
        subst hk0
        simp only [mul_zero, zero_add, mul_one, BitVec.add_zero]
        rw [desWord, if_pos hrest, decide_eq_true hrest]
        exact hsame
      · rfl

/-- The code builds a chain of the parts if and only if `ChainFits`. -/
theorem desPrepare_chain_iff (c : Config) (mem : Mem) (size : Nat) (dmaPhy : BitVec 32)
    (t : DesType) (ch : Channel) (hsize : 0 < size) :
    IsChain c mem size dmaPhy t ch ↔ ChainFits c size dmaPhy t ch := by
  cases t with
  | short => exact short_chain_iff c mem dmaPhy ch hsize
  | long => exact long_chain_iff c mem dmaPhy ch hsize
  | mix =>
    refine ⟨fun h => ?_, fun h => h.2.elim⟩
    have hnone : 0 = parts size := h.1
    rw [parts] at hnone
    omega

/-- Descriptors with the virtual address `vir` and the physical address `0x1000`. -/
def configAt (vir : Nat) : Config := ⟨fun _ _ => vir, fun _ _ => 0x1000, fun _ => 0x200⟩

/-- A chain of three long descriptors. -/
theorem desPrepare_chain_three : parts 0x12345 = 3 ∧
    IsChain (configAt 0x1000) (fun _ => 0) 0x12345 0x80000 .long .out :=
  ⟨by decide, (desPrepare_chain_iff (configAt 0x1000) (fun _ => 0) 0x12345 0x80000 .long .out
    (by decide)).mpr ⟨by decide, fun _ => rfl⟩⟩

/-- A transfer of 32 KB has no descriptor with the end bit, one of 36 KB branches to a virtual
address, and in one of 36 KB with short descriptors the first one has no address. -/
theorem desPrepare_broken :
    ((wmtUdcPdmaDesPrepare (configAt 0xc0001000) (fun _ => 0) 0x8000 0x80000 .long .out).1
      0xc0001000).getLsbD 31 = false ∧
    (wmtUdcPdmaDesPrepare (configAt 0xc0001000) (fun _ => 0) 0x9000 0x80000 .long .out).1
      0xc0001008 = 0xc0001010 ∧
    (wmtUdcPdmaDesPrepare (configAt 0xc0001000) (fun _ => 0) 0x9000 0x80000 .short .out).1
      0xc0001004 ≠ 0x80000 := by
  decide +kernel

end Wm8850.Udc
