import Wm8850.Nand.Bbt

/-! # A table that is written and read back

`write_bbt` clears bits of a buffer of `0xff`, and `read_bbt` sets bits of the table in memory. Both
are `Updates` of packed entries, inverse on one entry with a reserved block as a good one
(`readCode_written`). The length of the first read is reduced by that of the marker as a `size_t`: a
table that is shorter than the marker is not read back. -/

namespace Wm8850.Nand.Bbt

open Lib Nat

variable {retlen page : Nat} {im : Image} {bbt : Bytes} {d : Descr} {n chip : Nat} {v : Device}
  {f : Flash}
    {s : ReadState} {version : BitVec 8}

/-- What is stored of the state of a block: a reserved block is a good one. -/
def storedState (s : BitVec 8) : BitVec 8 := if s = 2 then 0 else s

/-- The widths of an entry that tell worn and factory-bad blocks apart. -/
def Descr.Width (d : Descr) : Prop := d.bits = 2 ∨ d.bits = 4 ∨ d.bits = 8

instance (d : Descr) : Decidable d.Width := inferInstanceAs (Decidable (_ ∨ _))

/-! ### One entry -/

lemma blockState_eq_entry (bbt : Bytes) (block : Nat) :
    blockState bbt block = entry 2 bbt block := by
  have hmod : block &&& 3 = block % 4 := and_two_pow_sub_one_eq_mod block 2
  have hdiv : block >>> 2 = block / 4 := shiftRight_eq_div_pow block 2
  rw [blockState, hmod, hdiv]
  rfl

lemma blockState_cases (bbt : Bytes) (block : Nat) :
    blockState bbt block = 0 ∨ blockState bbt block = 1 ∨ blockState bbt block = 2 ∨
      blockState bbt block = 3 := by
  unfold blockState
  generalize bbt (block >>> 2) >>> (2 * (block &&& 0x03)) = x
  revert x
  decide

structure Masks.Packs (k : Masks) (d : Descr) : Prop where
  index : ∀ i, i >>> k.sft = i / (8 / d.bits)
  shift : ∀ i, (i <<< (3 - k.sft)) &&& k.sftmsk = d.bits * (i % (8 / d.bits))
  fits : ∀ s : BitVec 8, s = 0 ∨ s = 1 ∨ s = 2 ∨ s = 3 → Fits d.bits (k.msk s)
  code : ∀ s : BitVec 8, s = 0 ∨ s = 1 ∨ s = 2 ∨ s = 3 →
    (readCode d (lowMask d.bits &&& ~~~ k.msk s)).getD 0 = storedState s

lemma Descr.Width.pos (hw : d.Width) : 0 < 8 / d.bits := by
  rcases hw with h | h | h <;> rw [h] <;> decide

lemma Descr.Width.rounds (hw : d.Width) : (8 + d.bits - 1) / d.bits = 8 / d.bits := by
  rcases hw with h | h | h <;> rw [h]

lemma shift_and_mask (i a s : Nat) : (i <<< a) &&& ((2 ^ s - 1) <<< a) = 2 ^ a * (i % 2 ^ s) := by
  rw [← shiftLeft_and_distrib, and_two_pow_sub_one_eq_mod, shiftLeft_eq, mul_comm]

lemma Masks.packs_of {k : Masks} (a s : Nat) (hbits : d.bits = 2 ^ a)
    (hbyte : 8 / 2 ^ a = 2 ^ s) (hsft : k.sft = s) (hrest : 3 - s = a)
    (hmask : k.sftmsk = (2 ^ s - 1) <<< a)
    (hcodes : ∀ c : BitVec 8, c = 0 ∨ c = 1 ∨ c = 2 ∨ c = 3 → Fits d.bits (k.msk c) ∧
      (readCode d (lowMask d.bits &&& ~~~ k.msk c)).getD 0 = storedState c) : k.Packs d := by
  refine ⟨?_, ?_, fun c hc => (hcodes c hc).1, fun c hc => (hcodes c hc).2⟩
  · intro i
    rw [hsft, hbits, hbyte]
    exact shiftRight_eq_div_pow i s
  · intro i
    rw [hsft, hrest, hmask, hbits, hbyte]
    exact shift_and_mask i a s

lemma exists_masks (hw : d.Width) (hcode : d.reservedBlockCode = 0) :
    ∃ k, masks d = some k ∧ k.Packs d := by
  rcases hw with h | h | h
  · refine ⟨_, (if_neg (by omega)).trans (if_pos h), Masks.packs_of 1 2 h rfl rfl rfl rfl ?_⟩
    rintro c (rfl | rfl | rfl | rfl) <;> rw [readCode, h, hcode] <;> decide
  · refine ⟨_, (if_neg (by omega)).trans ((if_neg (by omega)).trans (if_pos h)),
      Masks.packs_of 2 1 h rfl rfl rfl rfl ?_⟩
    rintro c (rfl | rfl | rfl | rfl) <;> rw [readCode, h, hcode] <;> decide
  · refine ⟨_, (if_neg (by omega)).trans ((if_neg (by omega)).trans ((if_neg (by omega)).trans
      (if_pos h))), Masks.packs_of 3 0 h rfl rfl rfl rfl ?_⟩
    rintro c (rfl | rfl | rfl | rfl) <;> rw [readCode, h, hcode] <;> decide

/-! ### Writing -/

lemma blockState_byte (bbt : Bytes) (bbtoffs q : Nat) {j : Nat} (hj : j < 4) :
    (bbt (bbtoffs + q) >>> (2 * j)) &&& 0x03 = blockState bbt (4 * bbtoffs + (4 * q + j)) := by
  have hdiv : (4 * bbtoffs + (4 * q + j)) >>> 2 = bbtoffs + q := by
    omega
  have hmod : (4 * bbtoffs + (4 * q + j)) &&& 3 = j := by
    have hand : (4 * bbtoffs + (4 * q + j)) &&& 3 = (4 * bbtoffs + (4 * q + j)) % 4 :=
      and_two_pow_sub_one_eq_mod _ 2
    omega
  rw [blockState, hdiv, hmod]

section
variable {d : Descr} {k : Masks} (hw : d.Width) (hk : k.Packs d)
include hw hk

lemma clearAt_updates (bbt : Bytes) (bbtoffs offs i : Nat) (buf : Bytes) :
    Updates d.bits (window offs buf) (window offs (clearAt buf (offs + i >>> k.sft)
        (k.msk (blockState bbt (4 * bbtoffs + i)) <<< ((i <<< (3 - k.sft)) &&& k.sftmsk))))
      i (i + 1) (fun i x => x &&& ~~~ k.msk (blockState bbt (4 * bbtoffs + i))) := by
  apply Updates.one
  intro j
  rw [window_clearAt, hk.index, hk.shift, entry_clearAt hw.pos (hk.fits _ (blockState_cases bbt _))]
  by_cases heq : j = i
  · rw [if_pos heq, if_pos heq, heq]
  · rw [if_neg heq, if_neg heq]

lemma walk_updates (bbt : Bytes) (bbtoffs numblocks offs : Nat) (buf : Bytes) :
    Updates d.bits (window offs buf) (window offs (walk k bbt bbtoffs numblocks offs buf))
      0 (4 * ((numblocks + 3) / 4)) (fun i x =>
        x &&& ~~~ k.msk (blockState bbt (4 * bbtoffs + i))) := by
  rw [← zero_add (4 * ((numblocks + 3) / 4))]
  refine (Updates.loop _ (window offs) _ (fun _ _ => True) ?_ trivial).2
  intro q _ buf' _
  refine ⟨trivial, ?_⟩
  rw [show 0 + 4 * (q + 1) = 0 + 4 * q + 1 * 4 by omega, zero_add]
  refine (Updates.loop _ (window offs) _ (fun _ _ => True) ?_ trivial).2
  intro j hj buf'' _
  refine ⟨trivial, ?_⟩
  rw [blockState_byte bbt bbtoffs q hj, one_mul, one_mul]
  exact clearAt_updates hw hk bbt bbtoffs offs (4 * q + j) buf''

end

lemma entry_ff {w : Nat} (hw : 0 < 8 / w) {m : Bytes} (h : m (n / (8 / w)) = 0xff) :
    entry w m n = lowMask w := by
  rw [entry, h]
  apply BitVec.eq_of_getLsbD_eq
  intro i hi
  have hfit := entry_fits hw n
  rw [mul_succ] at hfit
  have hones : (0xff : BitVec 8) = BitVec.allOnes 8 := by decide
  rw [getLsbD_field, getLsbD_lowMask, hones, BitVec.getLsbD_allOnes]
  by_cases hiw : i < w
  · simp [hi, show w * (n % (8 / w)) + i < 8 by omega]
  · simp [hiw]

/-! ### Reading -/

lemma readEntry_updates (d : Descr) (offs n : Nat) (tmp : BitVec 8) (bbt : Bytes)
    {g : Nat → BitVec 8 → BitVec 8} (hg : ∀ x, g (4 * offs + n) x = x ||| (readCode d tmp).getD 0) :
    Updates 2 bbt
      (match readCode d tmp with
        | none => bbt
        | some code => orAt bbt (offs + (2 * n) >>> 3) (code <<< ((2 * n) &&& 0x06)))
      (4 * offs + n) (4 * offs + n + 1) g := by
  have hdiv : offs + (2 * n) >>> 3 = (4 * offs + n) / (8 / 2) := by
    omega
  have hmod : (2 * n) &&& 6 = 2 * ((4 * offs + n) % (8 / 2)) := by
    rw [mul_add_mod]
    exact shift_and_mask n 1 2
  have hfits : ∀ code, readCode d tmp = some code → Fits 2 code := by
    intro code hcode
    unfold readCode at hcode
    split at hcode
    · cases hcode
    · split at hcode
      · cases hcode
        decide
      · split at hcode <;> cases hcode <;> decide
  apply Updates.one
  intro j
  cases hcode : readCode d tmp with
  | none =>
    by_cases heq : j = 4 * offs + n
    · rw [if_pos heq, heq, hg, hcode]
      exact (BitVec.or_zero).symm
    · rw [if_neg heq]
  | some code =>
    rw [hdiv, hmod, entry_orAt (by decide) (hfits code hcode)]
    by_cases heq : j = 4 * offs + n
    · rw [if_pos heq, if_pos heq, heq, hg, hcode]
      rfl
    · rw [if_neg heq, if_neg heq]

section
variable {d : Descr} (hw : d.Width)
include hw

lemma readByte_updates (offs : Nat) (img : Bytes) (i : Nat) (bbt : Bytes) :
    (readByte d offs (img i) (2 * (8 / d.bits * i), bbt)).1 = 2 * (8 / d.bits * (i + 1)) ∧
      Updates 2 bbt (readByte d offs (img i) (2 * (8 / d.bits * i), bbt)).2
        (4 * offs + 8 / d.bits * i) (4 * offs + 8 / d.bits * (i + 1))
        (fun n x => x ||| (readCode d (entry d.bits img (n - 4 * offs))).getD 0) := by
  unfold readByte
  rw [hw.rounds]
  have hloop := Updates.loop (w := 2) (4 * offs + 8 / d.bits * i) (c := 1) (n := 8 / d.bits)
    (g := fun n x => x ||| (readCode d (entry d.bits img (n - 4 * offs))).getD 0)
    (fun s : Nat × Bytes => s.2)
    (fun s j =>
      (s.1 + 2,
        match readCode d ((img i >>> (d.bits * j)) &&& lowMask d.bits) with
        | none => s.2
        | some code => orAt s.2 (offs + s.1 >>> 3) (code <<< (s.1 &&& 0x06))))
    (fun j s => s.1 = 2 * (8 / d.bits * i + j)) ?_ (s := (2 * (8 / d.bits * i), bbt)) rfl
  · rw [one_mul, add_assoc] at hloop
    exact hloop
  intro j hj s hs
  refine ⟨by omega, ?_⟩
  rw [one_mul, one_mul, hs, ← add_assoc, add_assoc (4 * offs)]
  apply readEntry_updates
  intro x
  -- the entry of the table is the one that is looked at
  rw [Nat.add_sub_cancel_left, entry, mul_add_mod, mul_add_div hw.pos, mod_eq_of_lt hj,
    div_eq_of_lt hj]
  rfl

lemma readBytes_updates (offs len : Nat) (buf img : Bytes) (i : Nat)
    (hbuf : ∀ p < len, buf p = img (i + p)) (bbt : Bytes) :
    (readBytes d offs len buf (2 * (8 / d.bits * i), bbt)).1 = 2 * (8 / d.bits * (i + len)) ∧
      Updates 2 bbt (readBytes d offs len buf (2 * (8 / d.bits * i), bbt)).2
        (4 * offs + 8 / d.bits * i) (4 * offs + 8 / d.bits * (i + len))
        (fun n x => x ||| (readCode d (entry d.bits img (n - 4 * offs))).getD 0) := by
  have hloop := Updates.loop (w := 2) (4 * offs + 8 / d.bits * i) (c := 8 / d.bits)
    (n := len) (g := fun n x => x ||| (readCode d (entry d.bits img (n - 4 * offs))).getD 0)
    (fun s : Nat × Bytes => s.2) (fun s p => readByte d offs (buf p) s)
    (fun p s => s.1 = 2 * (8 / d.bits * (i + p))) ?_ (s := (2 * (8 / d.bits * i), bbt)) rfl
  · rw [add_assoc, ← mul_add] at hloop
    exact hloop
  rintro p hp ⟨act, bbt'⟩ hs
  have hact : act = 2 * (8 / d.bits * (i + p)) := hs
  rw [add_assoc, add_assoc, ← mul_add, ← mul_add, hbuf p hp, hact]
  exact readByte_updates hw offs img (i + p) bbt'

end

/-! ### The reads -/

lemma nandRead_ok {start len : Nat} (h : start + len ≤ v.size) (retlen : Nat) (buf : Bytes) :
    ∃ retlen' buf', nandRead v f start len retlen buf = (0, retlen', buf') ∧
      ∀ p < len, buf' p = f.data (start + p) := by
  unfold nandRead
  rw [if_neg (not_lt.mpr h)]
  by_cases hlen : len = 0
  · refine ⟨_, _, if_pos hlen, ?_⟩
    omega
  · refine ⟨_, _, if_neg hlen, ?_⟩
    intro p hp
    exact if_pos hp

/-- A round whose read is not shorter than the marker. -/
lemma readLoop_round (len : Nat) (htot : s.totlen ≠ 0) (hword : s.totlen < 2 ^ 31)
    (hmarker : s.markerLen + len = min s.totlen v.blocksize)
    (hsize : s.start + s.markerLen + len ≤ v.size) (offs fuel : Nat) :
    ∃ retlen buf, (∀ p < len, buf p = f.data (s.start + s.markerLen + p)) ∧
      readLoop v f d offs (fuel + 1) s = readLoop v f d offs fuel
          { totlen := s.totlen - len, markerLen := 0, start := s.start + s.markerLen + len
            act := (readBytes d offs len buf (s.act, s.bbt)).1
            bbt := (readBytes d offs len buf (s.act, s.bbt)).2, retlen := retlen, buf := buf } := by
  have hlen : wsub (min s.totlen v.blocksize) s.markerLen = len := by
    rw [wsub_of_le (by omega) (by unfold wordSize; omega)]
    omega
  have hrest : wsub s.totlen len = s.totlen - len :=
    wsub_of_le (by omega) (by unfold wordSize; omega)
  -- without a marker nothing is subtracted, which is the same
  have hround : (if s.markerLen ≠ 0 then
        (wsub (min s.totlen v.blocksize) s.markerLen, s.start + s.markerLen, 0)
      else (min s.totlen v.blocksize, s.start, s.markerLen))
      = (len, s.start + s.markerLen, 0) := by
    by_cases hzero : s.markerLen = 0
    · rw [if_neg (by omega), ← hmarker, hzero, zero_add, add_zero]
    · rw [if_pos hzero, hlen]
  obtain ⟨retlen, buf, hread, hbuf⟩ := nandRead_ok hsize s.retlen s.buf
  refine ⟨retlen, buf, hbuf, ?_⟩
  rw [readLoop, if_neg htot]
  simp only [hround, hread]
  rw [if_neg (by simp), if_neg (by omega), hrest]

section
variable {v : Device} {f : Flash} {d : Descr} (hw : d.Width)
include hw

lemma readLoop_rest {base total : Nat} (hsize : base + total ≤ v.size) (hword : total < 2 ^ 31)
    (offs fuel i : Nat) (hi : i ≤ total) (htot : s.totlen = total - i)
    (hmarker : s.markerLen = 0) (hstart : s.start = base + i)
    (hact : s.act = 2 * (8 / d.bits * i)) (hfuel : total - i < fuel) :
    ∃ bbt, readLoop v f d offs fuel s = some (0, bbt) ∧
      Updates 2 s.bbt bbt (4 * offs + 8 / d.bits * i) (4 * offs + 8 / d.bits * total)
        (fun n x => x |||
          (readCode d (entry d.bits (window base f.data) (n - 4 * offs))).getD 0) := by
  induction fuel generalizing i s with
  | zero => omega
  | succ fuel ih =>
    by_cases hzero : s.totlen = 0
    · -- all bytes are read
      have hdone : i = total := by omega
      subst hdone
      exact ⟨s.bbt, by rw [readLoop, if_pos hzero], Updates.refl _ _ _ _⟩
    have hpos : 0 < v.blocksize := Nat.two_pow_pos _
    obtain ⟨retlen, buf, hbuf, hrun⟩ := readLoop_round (v := v) (f := f) (d := d) _ hzero
      (by omega) (by rw [hmarker, zero_add]) (by omega) offs fuel
    rw [hrun, hact]
    obtain ⟨hact', hupd⟩ := readBytes_updates hw offs (min s.totlen v.blocksize) buf
      (window base f.data) i
      (fun p hp => by rw [hbuf p hp]; congr 1; omega) s.bbt
    obtain ⟨bbt, hend, hupd'⟩ := ih (i + min s.totlen v.blocksize) (s := { s with
        totlen := s.totlen - min s.totlen v.blocksize
        markerLen := 0
        start := s.start + s.markerLen + min s.totlen v.blocksize
        act := _, bbt := _, retlen := retlen, buf := buf })
      (by omega) (by simp only; omega) rfl (by simp only; omega) hact' (by omega)
    exact ⟨bbt, hend, hupd.trans hupd' (Nat.add_le_add_left (Nat.mul_le_mul_left _ (by omega)) _)
      (Nat.add_le_add_left (Nat.mul_le_mul_left _ (by omega)) _)⟩

lemma readBbt_updates (page num : Nat) (bbt : Bytes)
    (hmarker : num * d.bits / 8 = 0 ∨ addMarkerLen d ≤ min (num * d.bits / 8) v.blocksize)
    (hsize : page <<< v.pageShift + addMarkerLen d + num * d.bits / 8 ≤ v.size)
    (hword : num * d.bits / 8 < 2 ^ 31) (retlen offs : Nat) :
    ∃ bbt', readBbt v f retlen page num d offs bbt = some (0, bbt') ∧
      Updates 2 bbt bbt' (4 * offs) (4 * offs + 8 / d.bits * (num * d.bits / 8))
        (fun n x => x ||| (readCode d (entry d.bits
          (window (page <<< v.pageShift + addMarkerLen d) f.data) (n - 4 * offs))).getD 0) := by
  unfold readBbt
  rw [show (num * d.bits) >>> 3 = num * d.bits / 8 from shiftRight_eq_div_pow _ 3]
  generalize htotal : num * d.bits / 8 = total at *
  by_cases hzero : total = 0
  · refine ⟨bbt, ?_, ?_⟩
    · rw [readLoop, if_pos hzero]
    · rw [hzero]
      exact Updates.refl _ _ _ _
  have hmarker := hmarker.resolve_left hzero
  obtain ⟨retlen', buf, hbuf, hrun⟩ := readLoop_round (v := v) (f := f) (d := d)
    (s := { totlen := total, markerLen := addMarkerLen d, start := page <<< v.pageShift
            act := 0, bbt := bbt, retlen := retlen, buf := fun _ => 0xff })
    (min total v.blocksize - addMarkerLen d) hzero hword
    (by simp only; omega) (by simp only; omega) offs (total + 1)
  rw [hrun]
  obtain ⟨hact, hupd⟩ := readBytes_updates hw offs (min total v.blocksize - addMarkerLen d) buf
    (window (page <<< v.pageShift + addMarkerLen d) f.data) 0
    (fun p hp => by rw [hbuf p hp, zero_add, window]) bbt
  rw [zero_add] at hupd
  rw [zero_add] at hact
  obtain ⟨bbt', hend, hupd'⟩ := readLoop_rest hw hsize hword offs (total + 1)
    (min total v.blocksize - addMarkerLen d)
    (s := { totlen := total - (min total v.blocksize - addMarkerLen d), markerLen := 0
            start := page <<< v.pageShift + addMarkerLen d +
              (min total v.blocksize - addMarkerLen d)
            act := _, bbt := _, retlen := retlen', buf := buf })
    (by omega) rfl rfl rfl hact (by omega)
  exact ⟨bbt', hend, hupd.trans hupd' (Nat.le_add_right _ _)
    (Nat.add_le_add_left (Nat.mul_le_mul_left _ (by omega)) _)⟩

end

/-- The first read of a table that is shorter than its marker is of almost `2 ^ 32` bytes: it is
refused, or it runs over the buffer. -/
lemma readBbt_fails {num : Nat} (hnum : num * d.bits / 8 ≠ 0)
    (hmarker : min (num * d.bits / 8) v.blocksize < addMarkerLen d)
    (hlen : addMarkerLen d ≤ 2 ^ 31) (offs : Nat) (bbt bbt' : Bytes) :
    readBbt v f retlen page num d offs bbt ≠ some (0, bbt') := by
  unfold readBbt
  rw [show (num * d.bits) >>> 3 = num * d.bits / 8 from shiftRight_eq_div_pow _ 3, readLoop,
    if_neg hnum]
  have hwrap : 2 ^ 31 ≤ wsub (min (num * d.bits / 8) v.blocksize) (addMarkerLen d) := by
    unfold wsub wordSize
    omega
  simp only [if_pos (show addMarkerLen d ≠ 0 by omega), if_pos hwrap]
  split
  next hrefused =>
    intro h
    have hzero := (Prod.mk.inj (Option.some.inj h)).1
    omega
  next => exact Option.some_ne_none _ ∘ Eq.symm

/-! ### The buffer -/

/-- The checks of `verify_bbt_descr` on a descriptor with the marker in the page. -/
structure Descr.Verified (d : Descr) : Prop where
  offs : d.noOob = true → d.offs = 0
  veroffs : d.noOob = true → d.version = true → d.veroffs = d.pattern.length
  saveContent : d.noOob = true → d.saveContent = false

/-- The entry `i` is behind the end of the block whose contents are saved, so it is not written. -/
def Descr.CutOff (d : Descr) (v : Device) (page i : Nat) : Prop :=
  d.saveContent = true ∧
    v.blocksize ≤ (page <<< v.pageShift) % v.blocksize + i / (8 / d.bits)

/-- The table is empty or the first read is not shorter than the marker, and where a table does not
end in the block whose contents are saved, the flash has its last entries already. -/
structure Descr.ReadsBack (d : Descr) (v : Device) (f : Flash) (page first : Nat) (bbt : Bytes) :
    Prop where
  marker : v.numblocks d = 0 ∨
    addMarkerLen d ≤ min (v.numblocks d * d.bits / 8) v.blocksize
  rest : ∀ i < v.numblocks d, d.CutOff v page i →
    (readCode d (entry d.bits (window (page <<< v.pageShift + addMarkerLen d) f.data) i)).getD 0
      = storedState (blockState bbt (first + i))

lemma le_align (v : Device) (len : Nat) : len ≤ align v len := by
  have hpos : 0 < v.writesize := Nat.two_pow_pos _
  have hlt := lt_div_mul_add (a := len + v.writesize - 1) hpos
  unfold align
  omega

lemma Descr.Width.div_eq (hw : d.Width) (n : Nat) : n / (8 / d.bits) = n * d.bits / 8 := by
  rcases hw with h | h | h <;> rw [h] <;> omega

lemma Descr.Width.div_dvd_four (hw : d.Width) : 8 / d.bits ∣ 4 := by
  rcases hw with h | h | h <;> rw [h] <;> decide

lemma Device.chipsize_shift (v : Device) : v.chipsize >>> v.bbtEraseShift = v.chipBlocks :=
  shiftLeft_shiftRight _ _

lemma Device.size_shift (v : Device) : v.size >>> v.bbtEraseShift = v.numchips * v.chipBlocks := by
  rw [Device.size, Device.chipsize, shiftLeft_eq, ← mul_assoc, ← shiftLeft_eq,
    shiftLeft_shiftRight]

lemma Device.numblocks_lt (v : Device) (d : Descr) : v.numblocks d < 2 ^ 28 := by
  have hall := v.blocks_lt
  have hone : v.chipBlocks ≤ v.numchips * v.chipBlocks := Nat.le_mul_of_pos_left _ v.chips_pos
  unfold Device.numblocks
  rw [v.chipsize_shift, v.size_shift]
  split <;> omega

lemma numblocks_bits_lt (hw : d.Width) (v : Device) : v.numblocks d * d.bits / 8 < 2 ^ 31 := by
  have hlt := v.numblocks_lt d
  rcases hw with h | h | h <;> rw [h] <;> omega

lemma Device.writesize_dvd (v : Device) : v.writesize ∣ v.blocksize := pow_dvd_pow 2 v.page_le

/-- Where the table stands in the buffer. Only the saved contents of a block can be too short for
it. -/
structure Image.Holds (im : Image) (v : Device) (d : Descr) (page total : Nat) : Prop where
  dest : im.dest + im.offs = page <<< v.pageShift + addMarkerLen d
  fits : im.offs + total ≤ im.len ∨ d.saveContent = true ∧ im.len = v.blocksize ∧
    im.offs = (page <<< v.pageShift) % v.blocksize

lemma emptyImage_spec {sft : Nat} {ooboffs : Nat} (hver : d.Verified)
    (him : emptyImage v f retlen d sft n page = .ok (im, ooboffs)) :
    im.Holds v d page (n >>> sft) ∧ (∀ p < n >>> sft, im.buf (im.offs + p) = 0xff) ∧
    (d.version = true → ooboffs + d.veroffs < im.offs ∨ im.len ≤ ooboffs) := by
  unfold emptyImage at him
  simp only at him
  by_cases hsave : d.saveContent = true
  · have hoob : d.noOob = false := by
      cases h : d.noOob with
      | false => rfl
      | true => exact absurd hsave (by simp [hver.saveContent h])
    have hmarker : addMarkerLen d = 0 := by simp [addMarkerLen, hoob]
    rw [if_pos hsave] at him
    split at him
    · cases him
    split at him
    · cases him
    cases him
    -- the block starts at a page, so that the offset in the block is that of the page
    have hoffs : (page - (page <<< v.pageShift - (page <<< v.pageShift) % v.blocksize)
        >>> v.pageShift) <<< v.pageShift = (page <<< v.pageShift) % v.blocksize := by
      have hle := mod_le (page <<< v.pageShift) v.blocksize
      have hdvd : v.writesize ∣ (page <<< v.pageShift) % v.blocksize := by
        rw [dvd_mod_iff v.writesize_dvd, shiftLeft_eq]
        exact Nat.dvd_mul_left _ _
      obtain ⟨c, hc⟩ := hdvd
      have hpage : page <<< v.pageShift = v.writesize * page := by
        rw [shiftLeft_eq, mul_comm]
        rfl
      have hpos : 0 < v.writesize := Nat.two_pow_pos _
      have hcle : c ≤ page := by
        rw [hc, hpage] at hle
        exact Nat.le_of_mul_le_mul_left hle hpos
      rw [hc, hpage, ← Nat.mul_sub, shiftRight_eq_div_pow,
        show 2 ^ v.pageShift = v.writesize from rfl,
        Nat.mul_div_cancel_left (page - c) hpos, Nat.sub_sub_self hcle,
        shiftLeft_eq, mul_comm]
      rfl
    have hle := mod_le (page <<< v.pageShift) v.blocksize
    simp only [hoffs]
    refine ⟨⟨by simp only; omega, .inr ⟨hsave, rfl, rfl⟩⟩, ?_, fun _ => .inr (by omega)⟩
    intro p hp
    rw [preset, if_pos (by omega)]
  rw [if_neg hsave] at him
  by_cases hoob : d.noOob = true
  · have hmarker : addMarkerLen d = d.pattern.length + (if d.version then 1 else 0) := by
      rw [addMarkerLen, if_pos hoob]
    rw [if_pos hoob] at him
    cases him
    have hlen := le_align v (n >>> sft + (d.pattern.length + (if d.version then 1 else 0)))
    simp only
    refine ⟨⟨by rw [hmarker], .inl (by simp only; omega)⟩, ?_, ?_⟩
    · intro p hp
      rw [putPattern, if_neg (by omega), preset, if_pos (by omega)]
    · intro hv
      rw [hver.veroffs hoob hv, if_pos hv]
      omega
  rw [if_neg hoob] at him
  cases him
  have hlen := le_align v (n >>> sft)
  have hmarker : addMarkerLen d = 0 := by simp [addMarkerLen, hoob]
  simp only
  refine ⟨⟨by rw [hmarker], .inl (by simp only; omega)⟩, ?_, fun _ => .inr (le_refl _)⟩
  intro p hp
  rw [putPattern, if_neg (by omega), preset, if_pos (by omega)]

/-- The table that stands at a page is read as that part of `bbt` that starts with the block
`first`. -/
def Flash.HasTable (f : Flash) (v : Device) (d : Descr) (page first : Nat) (bbt : Bytes) : Prop :=
  ∀ i < v.numblocks d, (readCode d (entry d.bits
    (window (page <<< v.pageShift + addMarkerLen d) f.data) i)).getD 0
      = storedState (blockState bbt (first + i))

/-- What `read_bbt` puts into the table in memory, whatever the flash holds. -/
lemma readBbt_states (hw : d.Width)
    (hmarker : v.numblocks d = 0 ∨
      addMarkerLen d ≤ min (v.numblocks d * d.bits / 8) v.blocksize) (hfour : 4 ∣ v.numblocks d)
    (hsize : page <<< v.pageShift + addMarkerLen d + v.numblocks d * d.bits / 8 ≤ v.size)
    (retlen offs : Nat) (bbt0 : Bytes) :
    ∃ bbt', readBbt v f retlen page (v.numblocks d) d offs bbt0 = some (0, bbt') ∧
      ∀ b, blockState bbt' b = if 4 * offs ≤ b ∧ b < 4 * offs + v.numblocks d then
            blockState bbt0 b ||| (readCode d (entry d.bits
              (window (page <<< v.pageShift + addMarkerLen d) f.data) (b - 4 * offs))).getD 0
          else blockState bbt0 b := by
  have hfirst : v.numblocks d * d.bits / 8 = 0 ∨
      addMarkerLen d ≤ min (v.numblocks d * d.bits / 8) v.blocksize :=
    hmarker.imp_left fun h => by rw [h, zero_mul, Nat.zero_div]
  obtain ⟨bbt', hrun, hupd⟩ := readBbt_updates (v := v) (f := f) hw page
    (v.numblocks d) bbt0 hfirst hsize (numblocks_bits_lt hw v) retlen offs
  refine ⟨bbt', hrun, ?_⟩
  intro b
  have hnum : 8 / d.bits * (v.numblocks d * d.bits / 8) = v.numblocks d := by
    rw [← hw.div_eq]
    exact Nat.mul_div_cancel' (hw.div_dvd_four.trans hfour)
  rw [blockState_eq_entry, blockState_eq_entry bbt0, hupd b, hnum]

lemma readBbt_hasTable (hw : d.Width) {first : Nat}
    (hmarker : addMarkerLen d ≤ min (v.numblocks d * d.bits / 8) v.blocksize)
    (hfour : 4 ∣ v.numblocks d)
    (hsize : page <<< v.pageShift + addMarkerLen d + v.numblocks d * d.bits / 8 ≤ v.size)
    (htable : f.HasTable v d page first bbt) (retlen offs : Nat) (bbt0 : Bytes) :
    ∃ bbt', readBbt v f retlen page (v.numblocks d) d offs bbt0 = some (0, bbt') ∧
      ∀ b, blockState bbt' b = if 4 * offs ≤ b ∧ b < 4 * offs + v.numblocks d then
            blockState bbt0 b ||| storedState (blockState bbt (first + (b - 4 * offs)))
          else blockState bbt0 b := by
  obtain ⟨bbt', hrun, hstates⟩ := readBbt_states hw (.inr hmarker) hfour hsize retlen offs bbt0
  refine ⟨bbt', hrun, ?_⟩
  intro b
  rw [hstates b]
  by_cases hb : 4 * offs ≤ b ∧ b < 4 * offs + v.numblocks d
  · rw [if_pos hb, if_pos hb, ← htable (b - 4 * offs) (by omega)]
  · rw [if_neg hb, if_neg hb]

section
variable {v : Device} {d : Descr} (hw : d.Width) (hcode : d.reservedBlockCode = 0)
include hw hcode

section
variable (hver : d.Verified) (hfour : 4 ∣ v.numblocks d)
include hver hfour

lemma bbtImage_spec (him : bbtImage v f retlen d version bbt chip page = .ok im) :
    im.Holds v d page (v.numblocks d * d.bits / 8) ∧
    ∀ i < v.numblocks d, im.offs + i / (8 / d.bits) < im.len →
      (readCode d (entry d.bits (window im.offs im.buf) i)).getD 0
        = storedState (blockState bbt (chip * v.numblocks d + i)) := by
  obtain ⟨k, hmasks, hk⟩ := exists_masks hw hcode
  have hlen : v.numblocks d >>> k.sft = v.numblocks d * d.bits / 8 := by
    rw [hk.index, hw.div_eq]
  unfold bbtImage at him
  rw [hmasks] at him
  simp only at him
  cases hempty : emptyImage v f retlen d k.sft (v.numblocks d) page with
  | error e =>
    rw [hempty] at him
    cases him
  | ok r =>
    obtain ⟨im0, ooboffs⟩ := r
    rw [hempty] at him
    cases him
    obtain ⟨hholds, hff, hvers⟩ := emptyImage_spec hver hempty
    rw [hlen] at hholds hff
    refine ⟨⟨hholds.dest, hholds.fits⟩, ?_⟩
    intro i hi hin
    have hwalk := walk_updates hw hk bbt (chip * (v.numblocks d >>> 2)) (v.numblocks d) im0.offs
      (fun p => if d.version = true ∧ p = ooboffs + d.veroffs then version else im0.buf p) i
    obtain ⟨q, hq⟩ := hfour
    have hdiv : v.numblocks d >>> 2 = q := by
      omega
    have hindex : 4 * (chip * q) + i = chip * v.numblocks d + i := by
      rw [hq, Nat.mul_left_comm]
    rw [if_pos ⟨Nat.zero_le i, by omega⟩, hdiv] at hwalk
    beta_reduce at hwalk
    rw [hindex] at hwalk
    -- the entry is preset, and the version is not in it
    have hbyte : i / (8 / d.bits) < v.numblocks d * d.bits / 8 := by
      rw [← hw.div_eq]
      exact div_lt_div_of_lt_of_dvd (hw.div_dvd_four.trans ⟨q, hq⟩) hi
    have hpreset : entry d.bits (window im0.offs fun p =>
        if d.version = true ∧ p = ooboffs + d.veroffs then version else im0.buf p) i
        = lowMask d.bits := by
      apply entry_ff hw.pos
      rw [window, if_neg, hff _ hbyte]
      rintro ⟨hv, hp⟩
      have hnot := hvers hv
      generalize i / (8 / d.bits) = byte at hbyte hp hin
      simp only at hin
      omega
    rw [hpreset] at hwalk
    rw [hdiv, hwalk]
    exact hk.code _ (blockState_cases bbt _)

/-- A flash with the bytes of the buffer has every entry that is not cut off. -/
lemma bbtImage_stored {f0 : Flash} (him : bbtImage v f0 retlen d version bbt chip page = .ok im)
    (hf : ∀ p < im.len, f.data (im.dest + p) = im.buf p) {i : Nat} (hi : i < v.numblocks d)
    (hcut : ¬d.CutOff v page i) :
    (readCode d (entry d.bits (window (page <<< v.pageShift + addMarkerLen d) f.data) i)).getD 0
      = storedState (blockState bbt (chip * v.numblocks d + i)) := by
  obtain ⟨hholds, hentry⟩ := bbtImage_spec hw hcode hver hfour him
  have hbyte : i / (8 / d.bits) < v.numblocks d * d.bits / 8 := by
    rw [← hw.div_eq]
    exact div_lt_div_of_lt_of_dvd (hw.div_dvd_four.trans hfour) hi
  have hin : im.offs + i / (8 / d.bits) < im.len := by
    rcases hholds.fits with hfits | ⟨hsave, hblock, hoffs⟩
    · omega
    · rw [hblock, hoffs]
      exact not_le.mp fun hle => hcut ⟨hsave, hle⟩
  rw [← hentry i hi hin]
  -- the byte of the flash is the byte of the buffer
  congr 2
  apply entry_congr
  rw [window, window, ← hholds.dest, add_assoc, hf _ hin]

end

/-- A flash that holds what `write_bbt` wrote gives back the table, with reserved blocks as good
ones, exactly if `Descr.ReadsBack`. The pattern length is an `int`, and the table is inside the
device. -/
theorem readBbt_bbtImage_iff {f₀ : Flash} {retlen₀ : Nat} {version : BitVec 8} {bbt : Bytes}
    {chip page : Nat} {im : Image} (hver : d.Verified) (hlen : d.pattern.length < 2 ^ 31)
    (hfour : 4 ∣ v.numblocks d) (him : bbtImage v f₀ retlen₀ d version bbt chip page = .ok im)
    (hsize : page <<< v.pageShift + addMarkerLen d + v.numblocks d * d.bits / 8 ≤ v.size)
    {f : Flash} (hf : ∀ p < im.len, f.data (im.dest + p) = im.buf p) (retlen offs : Nat) :
    (∃ bbt', readBbt v f retlen page (v.numblocks d) d offs (fun _ => 0) = some (0, bbt') ∧
      ∀ b, blockState bbt' b = if 4 * offs ≤ b ∧ b < 4 * offs + v.numblocks d then
            storedState (blockState bbt (chip * v.numblocks d + (b - 4 * offs))) else 0) ↔
      d.ReadsBack v f page (chip * v.numblocks d) bbt := by
  have hclear : ∀ b code, blockState (fun _ => 0) b ||| code = code := by
    intro b code
    simp [blockState]
  constructor
  · rintro ⟨bbt', hrun, hall⟩
    have hmarker : v.numblocks d = 0 ∨
        addMarkerLen d ≤ min (v.numblocks d * d.bits / 8) v.blocksize := by
      by_contra! hno
      have htotal : v.numblocks d * d.bits / 8 ≠ 0 := by
        rcases hw with h | h | h <;> rw [h] <;> omega
      have hmarkerLen : addMarkerLen d ≤ 2 ^ 31 := by
        unfold addMarkerLen
        split_ifs <;> omega
      exact readBbt_fails htotal hno.2 hmarkerLen offs _ bbt' hrun
    refine ⟨hmarker, fun i hi _ => ?_⟩
    obtain ⟨bbt'', hrun', hstates⟩ :=
      readBbt_states hw hmarker hfour hsize retlen offs (f := f) fun _ => 0
    cases hrun.symm.trans hrun'
    have hblock := hstates (4 * offs + i)
    rw [hall, if_pos (by omega), if_pos (by omega), Nat.add_sub_cancel_left,
      hclear] at hblock
    exact hblock.symm
  · intro hback
    obtain ⟨bbt', hrun, hstates⟩ :=
      readBbt_states hw hback.marker hfour hsize retlen offs (f := f) fun _ => 0
    refine ⟨bbt', hrun, fun b => ?_⟩
    rw [hstates b]
    by_cases hb : 4 * offs ≤ b ∧ b < 4 * offs + v.numblocks d
    · have hi : b - 4 * offs < v.numblocks d := by omega
      rw [if_pos hb, if_pos hb, hclear]
      by_cases hcut : d.CutOff v page (b - 4 * offs)
      · exact hback.rest _ hi hcut
      · exact bbtImage_stored hw hcode hver hfour him hf hi hcut
    · rw [if_neg hb, if_neg hb]
      simp [blockState]

end

/-- One chip of 16 blocks of 32 bytes. -/
def smallDevice : Device :=
  { bbtEraseShift := 5, pageShift := 4, chipShift := 9, chipBlocks := 16, oobsize := 16,
    numchips := 1
    page_le := by decide, chips_pos := Nat.one_pos, blocks_lt := by decide }

/-- The options of the generic descriptors, with the marker in the out-of-band bytes. -/
def oobDescr : Descr :=
  { bits := 2, lastBlock := true, perChip := true, version := true, saveContent := false
    noOob := false, create := true, write := true, offs := 8, veroffs := 12
    pattern := [0x42, 0x62, 0x74, 0x30], maxblocks := 4, reservedBlockCode := 0 }

def noOobDescr : Descr := { oobDescr with noOob := true, offs := 0, veroffs := 4 }

/-- The first four blocks are in the four states. -/
def mixedTable : Bytes := fun p => if p = 0 then 0xe4 else 0

theorem oobDescr_reads_back :
    ∃ im, bbtImage smallDevice ⟨fun _ => 0, fun _ _ => 0⟩ 0 oobDescr 1 mixedTable 0 30 = .ok im ∧
      ∃ bbt', readBbt smallDevice ⟨fun p => im.buf (p - im.dest), fun _ _ => 0⟩ 0 30 16 oobDescr 0
        (fun _ => 0) = some (0, bbt') ∧
        blockState bbt' 0 = 0 ∧ blockState bbt' 1 = 1 ∧ blockState bbt' 2 = 0 ∧
        blockState bbt' 3 = 3 := by
  obtain ⟨im, him⟩ : ∃ im, bbtImage smallDevice ⟨fun _ => 0, fun _ _ => 0⟩ 0 oobDescr 1
      mixedTable 0 30 = .ok im := ⟨_, rfl⟩
  obtain ⟨bbt', hrun, hstate⟩ := (readBbt_bbtImage_iff (v := smallDevice) (d := oobDescr)
    (.inl rfl) rfl ⟨by decide, by decide, by decide⟩ (by decide) (by decide) him (by decide)
    (f := ⟨fun p => im.buf (p - im.dest), fun _ _ => 0⟩)
    (fun p _ => congrArg im.buf (Nat.add_sub_cancel_left _ _)) 0 0).mpr
    ⟨by decide, fun _ _ hcut => absurd hcut.1 (by decide)⟩
  refine ⟨im, him, bbt', hrun, ?_⟩
  rw [hstate 0, hstate 1, hstate 2, hstate 3]
  decide

/-- The table has four bytes, the marker has five. The first read is of `2 ^ 32 - 1` bytes, it is
refused, and the table in memory stays clear. -/
theorem noOobDescr_not_read : noOobDescr.Width ∧ noOobDescr.Verified ∧ blockState mixedTable 1 = 1 ∧
    ∀ f : Flash,
      (∃ im, bbtImage smallDevice f 0 noOobDescr 1 mixedTable 0 30 = .ok im ∧
        im.dest + im.len ≤ smallDevice.size) ∧
      readBbt smallDevice f 0 30 16 noOobDescr 0 (fun _ => 0) = some (-EINVAL, fun _ => 0) := by
  refine ⟨by decide, ⟨by decide, by decide, by decide⟩, by decide, ?_⟩
  intro f
  exact ⟨⟨_, rfl, by decide⟩, rfl⟩

end Wm8850.Nand.Bbt
