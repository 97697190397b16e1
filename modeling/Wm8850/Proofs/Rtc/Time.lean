import Wm8850.Rtc.Time

/-! # A time that is set is read back

The fields of a register do not overlap, so each one is read back by itself. The century has one
bit, and the driver accepts every year from 100 on: what is read back is right for the years below
300. -/

namespace Wm8850.Rtc

open Nat

variable {shift mask m x y : Nat}

lemma setField_and_of_disjoint (h : mask &&& m = 0) : setField shift mask x &&& m = 0 := by
  rw [setField, land_assoc, h, and_zero]

lemma setField_and_self : setField shift mask x &&& mask = setField shift mask x := by
  rw [setField, land_assoc, Nat.and_self]

/-- A field of a value that is written to a register with the bits `m`. -/
theorem getField_written (bound : Nat) (hm : m &&& mask = mask)
    (hy : y &&& mask = setField shift mask x)
    (hall : ∀ x < bound, getField shift mask (setField shift mask x) = x) (hx : x < bound) :
    getField shift mask (y &&& m) = x := by
  have hback := hall x hx
  rw [getField, setField_and_self] at hback
  rw [getField, land_assoc, hm, hy, hback]

/-- Only the lowest bit of the century is stored. -/
theorem rtcdCent_rtdsCent (c : Nat) : rtcdCent (rtdsCent c) = c % 2 := by
  have hbit : ∀ n < 10, bcd2bin (((n <<< 19) &&& 0x80000) >>> 19) = n % 2 := by decide
  have hlow : bin2bcd c <<< 19 &&& 0x80000 = (c % 10) <<< 19 &&& 0x80000 := by
    apply eq_of_testBit_eq
    intro i
    rw [testBit_land, testBit_land, show 0x80000 = 2 ^ 19 from rfl, testBit_two_pow]
    by_cases hi : 19 = i
    · subst hi
      have hmod : bin2bcd c % 2 = c % 10 % 2 := by rw [bin2bcd]; omega
      simp [hmod]
    · simp [hi]
  rw [rtcdCent, rtdsCent, getField, setField_and_self, setField, hlow, hbit _ (by omega)]
  omega

lemma timeValue_fields (tm : RtcTime) : timeValue tm &&& 0x7f = rttsSec tm.sec.toNat ∧
    timeValue tm &&& 0x3f80 = rttsMin tm.min.toNat ∧
      timeValue tm &&& 0xfc000 = rttsHour tm.hour.toNat ∧
    timeValue tm &&& 0x700000 = rttsDay tm.wday.toNat := by
  simp only [timeValue, rttsSec, rttsMin, rttsHour, rttsDay, and_or_distrib_right]
  refine ⟨?_, ?_, ?_, ?_⟩ <;> (rw [setField_and_self]; simp [setField_and_of_disjoint])

lemma dateValue_fields (tm : RtcTime) : dateValue tm &&& 0x3f = rtdsMday tm.mday.toNat ∧
    dateValue tm &&& 0x7c0 = rtdsMon (tm.mon.toNat + 1) ∧
    dateValue tm &&& 0x7f800 = rtdsYear (tm.year.toNat % 100) ∧
    dateValue tm &&& 0x80000 = rtdsCent (tm.year.toNat / 100 - 1) := by
  simp only [dateValue, rtdsMday, rtdsMon, rtdsYear, rtdsCent, and_or_distrib_right]
  refine ⟨?_, ?_, ?_, ?_⟩ <;> (rw [setField_and_self]; simp [setField_and_of_disjoint])

/-- A call that returns 0 has accepted the time and written both registers. -/
theorem wmtRtcSetTime_zero {r r' : Regs} {tm : RtcTime} (h : wmtRtcSetTime r tm = (0, r')) :
    tm.Accepted ∧ r'.rtts = timeValue tm &&& 0x7fffff ∧ r'.rtds = dateValue tm &&& 0xfffff := by
  unfold wmtRtcSetTime wmtSetTime wmtSetDate at h
  split_ifs at h with hacc htime
  · simp only [ne_eq, not_true_eq_false, if_false] at h
    split_ifs at h with hdate
    · rw [← (Prod.mk.inj h).2]
      exact ⟨hacc, rfl, rfl⟩
    · exact absurd (Prod.mk.inj h).1 (by decide)
  · exact absurd (Prod.mk.inj h).1 (by decide)
  · exact absurd (Prod.mk.inj h).1 (by decide)

/-- The time that is read when the current registers have what was written. -/
theorem wmtRtcReadTime_written {r : Regs} {tm : RtcTime} (hacc : tm.Accepted)
    (ht : r.rtct = timeValue tm &&& 0x7fffff) (hd : r.rtcd = dateValue tm &&& 0xfffff) :
    wmtRtcReadTime r = .ok { tm with
      year := ((tm.year.toNat % 100 + ((tm.year.toNat / 100 - 1) % 2 * 100 + 100) : Nat) : Int)
        } := by
  obtain ⟨hsec, hmin, hhour, hwday⟩ := timeValue_fields tm
  obtain ⟨hmday, hmon, hyear, hcent⟩ := dateValue_fields tm
  obtain ⟨hs, hn, hh, hw, hy, ho, -⟩ := hacc
  have hvalid : ¬ (r.rtct &&& rtcInvalid ≠ 0 ∨ r.rtcd &&& rtcInvalid ≠ 0) := by
    rw [ht, hd, land_assoc, land_assoc]
    simp [rtcInvalid]
  have hsec : rtctSec r.rtct = tm.sec.toNat := by
    rw [ht]; exact getField_written 60 (by decide) hsec (by decide) (by omega)
  have hmin : rtctMin r.rtct = tm.min.toNat := by
    rw [ht]; exact getField_written 60 (by decide) hmin (by decide) (by omega)
  have hhour : rtctHour r.rtct = tm.hour.toNat := by
    rw [ht]; exact getField_written 24 (by decide) hhour (by decide) (by omega)
  have hwday : rtctDay r.rtct = tm.wday.toNat := by
    rw [ht]; exact getField_written 7 (by decide) hwday (by decide) (by omega)
  have hmday : rtcdMday r.rtcd = tm.mday.toNat := by
    rw [hd]; exact getField_written 32 (by decide) hmday (by decide) (by omega)
  have hmon : rtcdMon r.rtcd = tm.mon.toNat + 1 := by
    rw [hd]; exact getField_written 13 (by decide) hmon (by decide) (by omega)
  have hyear : rtcdYear r.rtcd = tm.year.toNat % 100 := by
    rw [hd]; exact getField_written 100 (by decide) hyear (by decide +kernel) (by omega)
  have hcent : rtcdCent r.rtcd = (tm.year.toNat / 100 - 1) % 2 := by
    rw [← rtcdCent_rtdsCent, ← hcent, rtcdCent, getField, getField, hd, land_assoc, land_assoc]
    rfl
  rw [wmtRtcReadTime, if_neg hvalid, hsec, hmin, hhour, hwday]
  simp only [Except.ok.injEq, RtcTime.mk.injEq]
  omega

/-- A time that was set is read back if and only if it is before the year 2200. -/
theorem readTime_setTime_iff {r r' now : Regs} {tm : RtcTime} (hset : wmtRtcSetTime r tm = (0, r'))
    (htime : now.rtct = r'.rtts) (hdate : now.rtcd = r'.rtds) :
    wmtRtcReadTime now = .ok tm ↔ tm.year < 300 := by
  obtain ⟨hacc, ht, hd⟩ := wmtRtcSetTime_zero hset
  have hyear : 100 ≤ tm.year := hacc.2.2.2.2.2.2
  rw [wmtRtcReadTime_written hacc (htime.trans ht) (hdate.trans hd)]
  obtain ⟨sec, min, hour, wday, mday, mon, year⟩ := tm
  simp only [Except.ok.injEq, RtcTime.mk.injEq, true_and] at hyear ⊢
  omega

/-- The registers after a time was set on a clock that is not busy, and taken. -/
def clockAfter (tm : RtcTime) : Regs :=
  let r := (wmtRtcSetTime ⟨0, 0, 0, 0, 0⟩ tm).2
  { r with rtct := r.rtts, rtcd := r.rtds }

/-- The last second of 2199. -/
theorem readTime_setTime_2199 :
    wmtRtcReadTime (clockAfter ⟨59, 59, 23, 2, 31, 11, 299⟩) = .ok ⟨59, 59, 23, 2, 31, 11, 299⟩ :=
  (readTime_setTime_iff
    (show wmtRtcSetTime ⟨0, 0, 0, 0, 0⟩ ⟨59, 59, 23, 2, 31, 11, 299⟩ = (0, _) from rfl) rfl rfl).mpr
      (by decide)

/-- The first second of 2200 is accepted, and read back as one of 2000. -/
theorem readTime_2200 : (wmtRtcSetTime ⟨0, 0, 0, 0, 0⟩ ⟨0, 0, 0, 3, 1, 0, 300⟩).1 = 0 ∧
    wmtRtcReadTime (clockAfter ⟨0, 0, 0, 3, 1, 0, 300⟩) = .ok ⟨0, 0, 0, 3, 1, 0, 100⟩ := by
  decide

end Wm8850.Rtc
