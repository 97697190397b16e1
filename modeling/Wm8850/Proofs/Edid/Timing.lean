import Wm8850.Proofs.Edid.Safety

/-! # A detailed timing, encoded and parsed

`DetailedTiming.encode` puts a timing into 18 bytes: sizes have 12 bits, 8 in a byte and 4 in a
nibble; the horizontal sync 10 bits, 2 of them in byte 11; the vertical sync 6 bits, 2 of them in
byte 11. `parse_timing_description` combines the horizontal sync as if its low part were a nibble,
which is right if and only if it fits into the low byte (`combineHi4Lo_byte_iff`). -/

namespace Wm8850.Edid

open Lib Nat List

/-- A timing that has a descriptor. The pixel clock is in units of 10 kHz. -/
structure DetailedTiming where
  clock : Nat
  hactive : Nat
  hfp : Nat
  hsync : Nat
  hbp : Nat
  vactive : Nat
  vfp : Nat
  vsync : Nat
  vbp : Nat
  clock_pos : 0 < clock
  clock_lt : clock < 2 ^ 16
  hactive_lt : hactive < 2 ^ 12
  hblanking_lt : hfp + hsync + hbp < 2 ^ 12
  hfp_lt : hfp < 2 ^ 10
  hsync_lt : hsync < 2 ^ 10
  vactive_lt : vactive < 2 ^ 12
  vblanking_lt : vfp + vsync + vbp < 2 ^ 12
  vfp_lt : vfp < 2 ^ 6
  vsync_lt : vsync < 2 ^ 6

namespace DetailedTiming
variable (t : DetailedTiming)

def hblanking : Nat := t.hfp + t.hsync + t.hbp

def vblanking : Nat := t.vfp + t.vsync + t.vbp

def fields : List Nat :=
  [t.clock % 256, t.clock / 256, t.hactive % 256, t.hblanking % 256,
    t.hactive / 256 * 16 + t.hblanking / 256,
    t.vactive % 256, t.vblanking % 256, t.vactive / 256 * 16 + t.vblanking / 256, t.hfp % 256,
      t.hsync % 256,
    t.vfp % 16 * 16 + t.vsync % 16,
    t.hfp / 256 * 64 + t.hsync / 256 * 16 + t.vfp / 16 * 4 + t.vsync / 16]

/-- The descriptor of a timing. Size and border of the picture and the flags are not part of the
timing. -/
def encode (rest : Bytes) : Bytes := fun k =>
  match t.fields[k]? with
  | some x => BitVec.ofNat 8 x
  | none => rest k

lemma fields_lt : ∀ x ∈ t.fields, x < 256 := by
  obtain ⟨_, _, _, _, _, _, _, _, _, _, _, _, _, _, _, _, _, _, _⟩ := t
  simp only [fields, hblanking, vblanking, forall_mem_cons, not_mem_nil, false_implies,
    implies_true,
    and_true]
  omega

lemma toNat_encode (rest : Bytes) {k x : Nat} (hk : t.fields[k]? = some x) :
    (t.encode rest k).toNat = x := by
  have hlt : x < 256 := t.fields_lt x (mem_of_getElem? hk)
  simp only [encode, hk]
  exact mod_eq_of_lt hlt

end DetailedTiming

/-! ### Bits of a byte -/

lemma upperNibble_eq {b : Nat} (hb : b < 256) : upperNibble b = b / 16 := by
  have hall : ∀ b : Fin 256, upperNibble b.val = b.val / 16 := by decide +kernel
  exact hall ⟨b, hb⟩

lemma lowerNibble_eq (b : Nat) : lowerNibble b = b % 16 := by
  rw [lowerNibble, Nat.and_comm]
  exact and_two_pow_sub_one_eq_mod b 4

lemma bitPairs_eq {b : Nat} (hb : b < 256) :
    (b &&& 0xC0) >>> 6 = b / 64 ∧ (b &&& 0x30) >>> 4 = b / 16 % 4 ∧ (b &&& 0x0C) >>> 2 = b / 4 % 4 ∧
      b &&& 0x03 = b % 4 := by
  have hall : ∀ b : Fin 256, (b.val &&& 0xC0) >>> 6 = b.val / 64 ∧
      (b.val &&& 0x30) >>> 4 = b.val / 16 % 4 ∧
      (b.val &&& 0x0C) >>> 2 = b.val / 4 % 4 ∧ b.val &&& 0x03 = b.val % 4 := by decide +kernel
  exact hall ⟨b, hb⟩

lemma combineHi8Lo_eq {hi lo : Nat} (hlo : lo < 256) : combineHi8Lo hi lo = hi * 256 + lo := by
  rw [combineHi8Lo, ← shiftLeft_add_eq_or_of_lt (by simpa using hlo), shiftLeft_eq]

lemma combineHi4Lo_eq {hi lo : Nat} (hlo : lo < 16) : combineHi4Lo hi lo = hi * 16 + lo := by
  rw [combineHi4Lo, ← shiftLeft_add_eq_or_of_lt (by simpa using hlo), shiftLeft_eq]

/-- A number of 10 bits survives `COMBINE_HI_4LO` of its high bits and its low byte if it has no
high bits. -/
theorem combineHi4Lo_byte_iff {x : Nat} (hx : x < 2 ^ 10) : combineHi4Lo (x / 256) (x % 256) = x ↔
    x < 256 := by
  constructor
  · -- the high bits overlap the low byte, so the result is a byte
    have hbyte : combineHi4Lo (x / 256) (x % 256) < 2 ^ 8 := or_lt_two_pow (by omega) (by omega)
    omega
  · intro hlt
    rw [div_eq_of_lt hlt, mod_eq_of_lt hlt, combineHi4Lo, zero_shiftLeft, zero_or]

/-! ### The parser on a descriptor -/

/-- The timing that the monitor has described. -/
structure VppTiming.Shows (v : VppTiming) (t : DetailedTiming) : Prop where
  pixelClock : v.pixelClock = t.clock * 10000
  hpixel : v.hpixel = t.hactive
  hfp : v.hfp = t.hfp
  hsync : v.hsync = t.hsync
  hbp : v.hbp = t.hbp
  vpixel : v.vpixel = t.vactive
  vfp : v.vfp = t.vfp
  vsync : v.vsync = t.vsync
  vbp : v.vbp = t.vbp

section
variable {edid : Bytes} {dtd : Nat} {t : DetailedTiming} {rest : Bytes}
  (hat : ∀ k < 18, edid (dtd + k) = t.encode rest k)
include hat

lemma val_descriptor {k x : Nat} (hk : t.fields[k]? = some x) : val edid (dtd + k) = x := by
  have hlen : k < t.fields.length := (List.getElem?_eq_some_iff.mp hk).1
  have hlen' : k < 12 := hlen
  rw [val, hat k (by omega), t.toNat_encode rest hk]

lemma sizesAt_descriptor : sizesAt edid dtd = ⟨t.hactive, t.hblanking, t.vactive, t.vblanking⟩ := by
  have hh := t.hactive_lt
  have hv := t.vactive_lt
  have hhb : t.hblanking < 2 ^ 12 := t.hblanking_lt
  have hvb : t.vblanking < 2 ^ 12 := t.vblanking_lt
  rw [sizesAt, val_descriptor hat (k := 2) rfl, val_descriptor hat (k := 3) rfl,
    val_descriptor hat (k := 4) rfl,
    val_descriptor hat (k := 5) rfl, val_descriptor hat (k := 6) rfl,
      val_descriptor hat (k := 7) rfl,
    upperNibble_eq (by omega), upperNibble_eq (by omega), lowerNibble_eq, lowerNibble_eq,
    combineHi8Lo_eq (by omega), combineHi8Lo_eq (by omega), combineHi8Lo_eq (by omega),
      combineHi8Lo_eq (by omega)]
  congr 1 <;> omega

omit hat in
lemma highBits_eq (t : DetailedTiming) {b : Nat}
    (hb : b = t.hfp / 256 * 64 + t.hsync / 256 * 16 + t.vfp / 16 * 4 + t.vsync / 16) :
    (b &&& 0xC0) >>> 6 = t.hfp / 256 ∧ (b &&& 0x30) >>> 4 = t.hsync / 256 ∧
      (b &&& 0x0C) >>> 2 = t.vfp / 16 ∧
      b &&& 0x03 = t.vsync / 16 := by
  have hhfp := t.hfp_lt
  have hhsync := t.hsync_lt
  have hvfp := t.vfp_lt
  have hvsync := t.vsync_lt
  obtain ⟨h6, h4, h2, h0⟩ := bitPairs_eq (b := b) (by omega)
  omega

/-- What is stored for a descriptor is its timing if and only if the horizontal sync has no high
bits. -/
lemma timingAt_shows_iff {option : BitVec 32} :
    (timingAt edid dtd option).Shows t ↔ t.hfp < 256 ∧ t.hsync < 256 := by
  obtain ⟨h6, h4, h2, h0⟩ := highBits_eq t (val_descriptor hat (k := 11) rfl)
  have hclock : combineHi8Lo (val edid (dtd + 1)) (val edid dtd) = t.clock := by
    rw [val_descriptor hat (k := 1) rfl, ← Nat.add_zero dtd, val_descriptor hat (k := 0) rfl,
      combineHi8Lo_eq (by omega)]
    omega
  have hvoffset : combineHi4Lo (t.vfp / 16) (upperNibble (val edid (dtd + 10))) = t.vfp := by
    rw [val_descriptor hat (k := 10) rfl, upperNibble_eq (by omega), combineHi4Lo_eq (by omega)]
    omega
  have hvwidth : combineHi4Lo (t.vsync / 16) (lowerNibble (val edid (dtd + 10))) = t.vsync := by
    rw [val_descriptor hat (k := 10) rfl, lowerNibble_eq, combineHi4Lo_eq (by omega)]
    omega
  -- the back porches are what is left of the blanking
  have hhbp : wsub t.hblanking (t.hsync + t.hfp) = t.hbp := by
    have hlt := t.hblanking_lt
    rw [DetailedTiming.hblanking, wsub_of_le (by omega) (by rw [wordSize]; omega)]
    omega
  have hvbp : wsub t.vblanking (t.vsync + t.vfp) = t.vbp := by
    have hlt := t.vblanking_lt
    rw [DetailedTiming.vblanking, wsub_of_le (by omega) (by rw [wordSize]; omega)]
    omega
  rw [timingAt, sizesAt_descriptor hat, h6, h4, h2, h0, hclock, hvoffset, hvwidth, hvbp,
    val_descriptor hat (k := 8) rfl, val_descriptor hat (k := 9) rfl]
  constructor
  · intro hshows
    exact ⟨(combineHi4Lo_byte_iff t.hfp_lt).mp hshows.hfp,
      (combineHi4Lo_byte_iff t.hsync_lt).mp hshows.hsync⟩
  · rintro ⟨hhfp, hhsync⟩
    rw [(combineHi4Lo_byte_iff t.hfp_lt).mpr hhfp, (combineHi4Lo_byte_iff t.hsync_lt).mpr hhsync,
      hhbp]
    exact ⟨rfl, rfl, rfl, rfl, rfl, rfl, rfl, rfl, rfl⟩

end

/-- `stored` is `info` after the stores of `parse_timing_description` to `slot`. The divisions
behind them change only options, if they come to an end. -/
def StoresDetail (edid : Bytes) (dtd : Nat) (info : EdidInfo) (slot : Fin 4) (stored : EdidInfo) :
    Prop :=
  ∃ sizes, readSizes edid dtd = .ok sizes ∧ storeDetail edid dtd sizes slot info = .ok stored

/-- The parser stores the timing of a descriptor to the first free slot, and only there, if and only
if the horizontal sync fits into the low bytes. What it returns has the same timings. -/
theorem parseTimingDescription_encode_iff (t : DetailedTiming) (rest edid : Bytes) (dtd : Nat)
    (info : EdidInfo) (slot : Fin 4) (hin : dtd + 18 ≤ 512)
    (hat : ∀ k < 18, edid (dtd + k) = t.encode rest k) (hfree : freeSlot info = some slot) :
    ∃ stored, StoresDetail edid dtd info slot stored ∧
      ((stored.detailTiming slot).Shows t ↔ t.hfp < 256 ∧ t.hsync < 256) ∧
      (∀ other ≠ slot, stored.detailTiming other = info.detailTiming other) ∧
      ∀ info', parseTimingDescription edid dtd info = .ok info' →
        ((info'.detailTiming slot).Shows t ↔ t.hfp < 256 ∧ t.hsync < 256) ∧
        ∀ other ≠ slot, info'.detailTiming other = info.detailTiming other := by
  obtain ⟨_, hsizes, rfl⟩ : Ensures (readSizes edid dtd) _ := ensures_readSizes hin
  obtain ⟨stored, hstore, hstored⟩ :
    Ensures (storeDetail edid dtd (sizesAt edid dtd) slot info) _ := ensures_storeDetail hin
  have hslot : stored.detailTiming slot = timingAt edid dtd (info.detailTiming slot).option := by
    rw [hstored, Function.update_self]
  have hother : ∀ other ≠ slot, stored.detailTiming other = info.detailTiming other := by
    intro other hne
    rw [hstored, Function.update_of_ne hne]
  refine ⟨stored, ⟨_, hsizes, hstore⟩, ?_, hother, fun info' hok => ?_⟩
  · rw [hslot]
    exact timingAt_shows_iff hat
  rw [parseTimingDescription, hsizes] at hok
  simp only [hfree] at hok
  replace hok : (storeDetail edid dtd (sizesAt edid dtd) slot info >>= fun info =>
      rateDetail edid dtd (sizesAt edid dtd) slot info) = .ok info' := hok
  rw [hstore] at hok
  have hrate : Settles (rateDetail edid dtd (sizesAt edid dtd) slot stored) _ _ :=
    settles_rateDetail hin
  obtain ⟨info₂, hrun, option, hinfo⟩ := hrate.ensures (hrate.needs info' hok)
  obtain rfl : info₂ = info' := Except.ok.inj (hrun.symm.trans hok)
  refine ⟨?_, fun other hne => ?_⟩
  · rw [hinfo, Function.update_self, hslot]
    exact @timingAt_shows_iff edid dtd t rest hat option
  · rw [hinfo, Function.update_of_ne hne, hother other hne]

def hd720 : DetailedTiming where
  clock := 7425
  hactive := 1280
  hfp := 110
  hsync := 40
  hbp := 220
  vactive := 720
  vfp := 5
  vsync := 5
  vbp := 20
  clock_pos := by decide
  clock_lt := by decide
  hactive_lt := by decide
  hblanking_lt := by decide
  hfp_lt := by decide
  hsync_lt := by decide
  vactive_lt := by decide
  vblanking_lt := by decide
  vfp_lt := by decide
  vsync_lt := by decide

theorem parseTimingDescription_hd720 : ∃ stored,
    StoresDetail (fun i => hd720.encode (fun _ => 0#8) (i - 0x36)) 0x36 EdidInfo.clear 0 stored ∧
      (stored.detailTiming 0).Shows hd720 ∧
      ∀ other ≠ 0, stored.detailTiming other = EdidInfo.clear.detailTiming other := by
  obtain ⟨stored, hstores, hshows, hother, -⟩ := parseTimingDescription_encode_iff hd720
    (fun _ => 0#8) (fun i => hd720.encode (fun _ => 0#8) (i - 0x36)) 0x36 EdidInfo.clear 0
    (by decide) (fun k _ => by rw [Nat.add_sub_cancel_left]) (by decide)
  exact ⟨stored, hstores, hshows.mpr ⟨by decide, by decide⟩, hother⟩

/-- The timing for 1280x720 at 50 Hz, with 440 pixels in front of the sync. -/
def hd720at50 : DetailedTiming :=
  { hd720 with hfp := 440, hblanking_lt := by decide, hfp_lt := by decide }

/-- The front porch of 440 pixels comes out as 184, and the back porch as 476 instead of 220. -/
theorem parseTimingDescription_hd720at50 :
    ∃ info', parseTimingDescription (fun i => hd720at50.encode (fun _ => 0#8) (i - 0x36)) 0x36
      EdidInfo.clear =
        .ok info' ∧ (info'.detailTiming 0).hfp = 184 ∧ (info'.detailTiming 0).hbp = 476 ∧
      ¬(info'.detailTiming 0).Shows hd720at50 := by
  have hrun : ((parseTimingDescription (fun i => hd720at50.encode (fun _ => 0#8) (i - 0x36)) 0x36
      EdidInfo.clear).toOption.map fun info =>
        ((info.detailTiming 0).hfp, (info.detailTiming 0).hbp)) =
        some (184, 476) := by
    decide +kernel
  generalize parseTimingDescription (fun i => hd720at50.encode (fun _ => 0#8) (i - 0x36)) 0x36
    EdidInfo.clear =
    run at hrun ⊢
  cases run with
  | error e => cases hrun
  | ok info' =>
    obtain ⟨hhfp, hhbp⟩ := Prod.mk.inj (Option.some.inj hrun)
    refine ⟨info', rfl, hhfp, hhbp, fun hshows => ?_⟩
    exact absurd (hhfp.symm.trans hshows.hfp) (by decide)

end Wm8850.Edid
