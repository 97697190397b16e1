import Wm8850.Clk.Pll

/-! # The frequency that is set, and the one that is read

A command leaves its frequency in the word of the PLL and the byte of the divisor; `pllFreq` is the
frequency of the two. The byte has three readings: `set_pll_speed` takes all its bits, `get_freq`
the low five, and for the hardware the low five stand for 32 if they are 0. SD/MMC devices have one
more factor for the latter two.
-/

namespace Wm8850.Clk

open Lib List Nat

/-! ### The search

The loop over `DF` is left at the first frequency above the target, which skips nothing, since the
rounded frequency grows with `DF` (`freq_mono`). -/

structure Setting.Limits (s : Setting) : Prop where
  df_le : s.df ≤ maxDf
  reference : 10 ≤ 24 / (s.dr + 1)
  low : 800 / 24 ≤ 2 * (s.df + 1) / (s.dr + 1)
  high : 2 * (s.df + 1) / (s.dr + 1) ≤ 1600 / 24

structure Setting.Among (vds : List Nat) (s : Setting) : Prop where
  limits : s.Limits
  dr_le : s.dr ≤ maxDr
  dq_le : s.dq ≤ maxDq
  vd_mem : s.vd ∈ vds

structure Setting.InRow (dr dq vd df n : Nat) (s : Setting) : Prop where
  dr_eq : s.dr = dr
  dq_eq : s.dq = dq
  vd_eq : s.vd = vd
  le_df : df ≤ s.df
  df_lt : s.df < df + n
  limits : s.Limits

def row (dr dq vd df n : Nat) : Set Setting := {s | s.InRow dr dq vd df n}

lemma freq_mono {s s' : Setting} (hdr : s.dr = s'.dr) (hdq : s.dq = s'.dq) (hvd : s.vd = s'.vd)
    (hdf : s.df ≤ s'.df) : s.freq ≤ s'.freq := by
  rw [Setting.freq, hdr, hdq, hvd]
  exact Nat.div_le_div_right (Nat.mul_le_mul_right _ (Nat.mul_le_mul_left _ (succ_le_succ hdf)))

/-- The distance of a frequency from the target. -/
def dist (target freq : Nat) : Nat := (target - freq) + (freq - target)

/-- The first value of `min_minor`. Settings that are further away are not chosen. -/
def far : Nat := 0xFF000000

/-- The settings that come into question. Above the target they do only with `nearest`. -/
def Eligible (target : Nat) (nearest : Bool) (vds : List Nat) : Set Setting :=
  {s | s.Among vds ∧ (nearest = true ∨ s.freq ≤ target)}

/-- The loops come to the row of `s'` before that of `s`. -/
def Prior (s' s : Setting) : Prop :=
  s.dr < s'.dr ∨ s'.dr = s.dr ∧ (s.dq < s'.dq ∨ s'.dq = s.dq ∧ s.vd < s'.vd)

/-- A setting that is nearest to the target, and no row before it has another one. -/
structure IsFirst (C : Set Setting) (target : Nat) (s : Setting) : Prop where
  mem : s ∈ C
  near : dist target s.freq < far
  best : ∀ s' ∈ C, dist target s.freq ≤ dist target s'.freq
  first : ∀ s' ∈ C, Prior s' s → dist target s.freq < dist target s'.freq

/-- What is kept of the settings in `T`. -/
structure Accounts (C : Set Setting) (target : Nat) (T : Set Setting) (b : Best) : Prop where
  pos : 0 < b.minMinor
  chosen : b = Best.start ∨ (b.setting ∈ C ∧ b.minMinor = dist target b.setting.freq ∧
    b.minMinor < far ∧ ∀ s ∈ C, Prior s b.setting → b.minMinor < dist target s.freq)
  best : ∀ s ∈ T, s ∈ C → b.minMinor ≤ dist target s.freq

structure Meets (C : Set Setting) (target : Nat) (b : Best) : Prop where
  chosen : b.setting ∈ C
  freq_eq : b.setting.freq = target
  first : ∀ s ∈ C, Prior s b.setting → s.freq ≠ target

variable {C T S : Set Setting} {target : Nat} {nearest : Bool} {b : Best}

lemma Accounts.mono (h : Accounts C target T b) (hS : S ⊆ T) : Accounts C target S b :=
  ⟨h.pos, h.chosen, fun s hs => h.best s (hS hs)⟩

lemma Accounts.skip (h : Accounts C target T b)
    (hS : ∀ s ∈ S, s ∈ C → b.minMinor ≤ dist target s.freq) : Accounts C target (T ∪ S) b :=
  ⟨h.pos, h.chosen, fun s hs hC => hs.elim (fun hT => h.best s hT hC) fun hin => hS s hin hC⟩

lemma Accounts.improve {s : Setting} (h : Accounts C target T b) (hs : s ∈ C)
    (hne : s.freq ≠ target) (hprior : ∀ s' ∈ C, Prior s' s → s' ∈ T) :
    Accounts C target (T ∪ {s}) (b.improve s (dist target s.freq)) := by
  rw [Best.improve]
  split
  · rename_i hcloser
    have hfar : b.minMinor ≤ far := by
      obtain hstart | ⟨-, -, hlt, -⟩ := h.chosen
      · rw [hstart]
        exact le_rfl
      · exact hlt.le
    refine ⟨?_, .inr ⟨hs, rfl, hcloser.trans_le hfar, fun s' hs' hp =>
      hcloser.trans_le (h.best s' (hprior s' hs' hp) hs')⟩, fun s' hs' hC => ?_⟩
    · simp only [dist]
      omega
    · obtain hT | rfl := hs'
      · exact hcloser.le.trans (h.best s' hT hC)
      · exact le_rfl
  · rename_i hfurther
    exact h.skip fun s' hs' _ => hs' ▸ not_lt.mp hfurther

lemma dist_of_le {freq : Nat} (h : freq ≤ target) : target - freq = dist target freq := by
  rw [dist]
  omega

lemma dist_of_ge {freq : Nat} (h : target ≤ freq) : freq - target = dist target freq := by
  rw [dist]
  omega

lemma covers_dfLoop {vds : List Nat} (dr dq vd : Nat) {n df : Nat}
    (hA : row dr dq vd df n ⊆ {s | s.Among vds}) (hn : df + n ≤ maxDf + 1) :
    Covers (Accounts (Eligible target nearest vds) target)
      (Meets (Eligible target nearest vds) target) (dfLoop target nearest dr dq vd n df)
      ({s ∈ Eligible target nearest vds | Prior s ⟨0, dr, dq, vd⟩}) (row dr dq vd df n) := by
  induction n generalizing df with
  | zero =>
    intro T b _ hb
    refine .inr ⟨rfl, hb.skip fun s hs => ?_⟩
    have hle := hs.le_df
    have hlt := hs.df_lt
    omega
  | succ n ih =>
    intro T b hT hb
    have hrest : row dr dq vd (df + 1) n ⊆ row dr dq vd df (n + 1) := by
      rintro s ⟨hdr, hdq, hvd, hle, hlt, hlim⟩
      exact ⟨hdr, hdq, hvd, by omega, by omega, hlim⟩
    -- a setting of the row is the first one or belongs to the rest
    have hsplit : ∀ s ∈ row dr dq vd df (n + 1),
        s = ⟨df, dr, dq, vd⟩ ∨ s ∈ row dr dq vd (df + 1) n := by
      rintro ⟨df', dr', dq', vd'⟩ ⟨rfl, rfl, rfl, hle, hlt, hlim⟩
      obtain rfl | hgt := eq_or_lt_of_le hle
      · exact .inl rfl
      · exact .inr ⟨rfl, rfl, rfl, hgt, by omega, hlim⟩
    have hih := ih (hrest.trans hA) (by omega)
    rw [dfLoop]
    by_cases href : 24 / (dr + 1) < 10
    · rw [if_pos href]
      refine .inr ⟨rfl, hb.skip fun s hs => absurd hs.limits.reference ?_⟩
      rw [hs.dr_eq]
      omega
    rw [if_neg href]
    by_cases hlow : 2 * (df + 1) / (dr + 1) < 800 / 24
    · rw [if_pos hlow]
      obtain hhit | ⟨hfalse, hacc⟩ := hih T b hT hb
      · exact .inl hhit
      refine .inr ⟨hfalse, hacc.mono (Set.union_subset_union_right T fun s hs => ?_)⟩
      obtain rfl | hin := hsplit s hs
      · exact absurd hs.limits.low (not_le.mpr hlow)
      · exact hin
    rw [if_neg hlow]
    by_cases hhigh : 1600 / 24 < 2 * (df + 1) / (dr + 1)
    · rw [if_pos hhigh]
      refine .inr ⟨rfl, hb.skip fun s hs => absurd hs.limits.high (not_le.mpr (hhigh.trans_le ?_))⟩
      rw [hs.dr_eq]
      exact Nat.div_le_div_right (Nat.mul_le_mul_left _ (succ_le_succ hs.le_df))
    rw [if_neg hhigh]
    have hin : (⟨df, dr, dq, vd⟩ : Setting).Among vds :=
      hA ⟨rfl, rfl, rfl, le_rfl, by simp, ⟨by simp only; omega, by simp only; omega,
        not_lt.mp hlow, not_lt.mp hhigh⟩⟩
    have hprior : ∀ s ∈ Eligible target nearest vds, Prior s ⟨df, dr, dq, vd⟩ → s ∈ T :=
      fun s hs hp => hT ⟨hs, hp⟩
    by_cases heq : (⟨df, dr, dq, vd⟩ : Setting).freq = target
    · rw [if_pos heq]
      refine .inl ⟨rfl, ⟨hin, .inr heq.le⟩, heq, fun s hs hp hsame => ?_⟩
      have hzero := hb.best s (hprior s hs hp) hs
      have hpos := hb.pos
      rw [hsame, dist] at hzero
      omega
    rw [if_neg heq]
    by_cases hlt : (⟨df, dr, dq, vd⟩ : Setting).freq < target
    · rw [if_pos hlt, dist_of_le hlt.le]
      obtain hhit | ⟨hfalse, hacc⟩ := hih _ _ (hT.trans Set.subset_union_left)
        (hb.improve ⟨hin, .inr hlt.le⟩ heq hprior)
      · exact .inl hhit
      refine .inr ⟨hfalse, hacc.mono ?_⟩
      rintro s (hs | hs)
      · exact .inl (.inl hs)
      · obtain rfl | hs' := hsplit s hs
        · exact .inl (.inr rfl)
        · exact .inr hs'
    -- the frequency is above the target, and so are those that follow
    rw [if_neg hlt]
    have habove : ∀ s ∈ row dr dq vd df (n + 1), (⟨df, dr, dq, vd⟩ : Setting).freq ≤ s.freq :=
      fun s hs => freq_mono hs.dr_eq.symm hs.dq_eq.symm hs.vd_eq.symm hs.le_df
    refine .inr ⟨rfl, ?_⟩
    split
    · rename_i hnearest
      rw [dist_of_ge (not_lt.mp hlt)]
      have hacc := hb.improve ⟨hin, .inl hnearest⟩ heq hprior
      refine ⟨hacc.pos, hacc.chosen, ?_⟩
      rintro s (hs | hs) hC
      · exact hacc.best s (.inl hs) hC
      · refine (hacc.best _ (.inr rfl) ⟨hin, .inl hnearest⟩).trans ?_
        have := habove s hs
        simp only [dist]
        omega
    · rename_i hnearest
      refine hb.skip fun s hs hC => ?_
      have := habove s hs
      obtain hnear | hle := hC.2
      · exact absurd hnear hnearest
      · omega

lemma mem_before {l l₁ l₂ : List Nat} {a x : Nat} (hl : l = l₁ ++ a :: l₂)
    (hdesc : l.Pairwise (· > ·)) (hx : x ∈ l) (hgt : a < x) : x ∈ l₁ := by
  subst hl
  obtain hmem | hmem := mem_append.mp hx
  · exact hmem
  obtain rfl | hmem := mem_cons.mp hmem
  · exact absurd hgt (lt_irrefl _)
  · have hlt : x < a := rel_of_pairwise_cons (pairwise_append.mp hdesc).2.1 hmem
    omega

/-- What the search chooses: the first of the nearest settings, or the values from before the loops,
24 MHz by the divisor, if there is none near enough. -/
lemma search_first (target : Nat) (nearest : Bool) {vds : List Nat} (hvds : vds.Pairwise (· > ·)) :
    ((search target nearest vds).setting = Best.start.setting ∧
        ∀ s ∈ Eligible target nearest vds, far ≤ dist target s.freq) ∨
      IsFirst (Eligible target nearest vds) target (search target nearest vds).setting := by
  have hdr : ∀ s : Setting, s.dr ∈ [1, 0] ↔ s.dr ≤ maxDr := by
    intro s
    simp only [mem_cons, not_mem_nil, or_false, maxDr]
    omega
  have hdq : ∀ s : Setting, s.dq ∈ [3, 2, 1, 0] ↔ s.dq ≤ maxDq := by
    intro s
    simp only [mem_cons, not_mem_nil, or_false, maxDq]
    omega
  -- a setting is in the row of its own values
  have hself : ∀ s ∈ Eligible target nearest vds, s ∈ row s.dr s.dq s.vd 0 (maxDf + 1) := by
    intro s hs
    have := hs.1.limits.df_le
    exact ⟨rfl, rfl, rfl, Nat.zero_le _, by omega, hs.1.limits⟩
  have hall : Covers (Accounts (Eligible target nearest vds) target)
      (Meets (Eligible target nearest vds) target)
      (scan (fun dr => scan (fun dq => scan (fun vd =>
        dfLoop target nearest dr dq vd (maxDf + 1) 0) vds) [3, 2, 1, 0]) [1, 0]) ∅ _ :=
    covers_scan fun r₁ dr r₂ hr => covers_scan fun q₁ dq q₂ hq => covers_scan fun v₁ vd v₂ hv => by
      have hA : row dr dq vd 0 (maxDf + 1) ⊆ {s | s.Among vds} := by
        rintro s ⟨rfl, rfl, rfl, -, -, hlim⟩
        exact ⟨hlim, (hdr s).mp (hr ▸ by simp), (hdq s).mp (hq ▸ by simp), hv ▸ by simp⟩
      intro T b hT
      refine covers_dfLoop dr dq vd hA (by omega) T b ?_
      -- a row before this one belongs to an earlier round of one of the loops
      rintro s ⟨hs, hp⟩
      have hin := hself s hs
      have hq' := (hdq s).mpr hs.1.dq_le
      refine hT ?_
      obtain hlt | ⟨rfl, hlt | ⟨rfl, hlt⟩⟩ := hp
      · exact .inl (.inl (.inr ⟨s.dr, mem_before hr (by decide) ((hdr s).mpr hs.1.dr_le) hlt,
          s.dq, hq', s.vd, hs.1.vd_mem, hin⟩))
      · exact .inl (.inr ⟨s.dq, mem_before hq (by decide) hq' hlt, s.vd, hs.1.vd_mem, hin⟩)
      · exact .inr ⟨s.vd, mem_before hv hvds hs.1.vd_mem hlt, hin⟩
  obtain ⟨-, hmeets⟩ | ⟨-, hacc⟩ := hall ∅ Best.start subset_rfl
    ⟨by decide, .inl rfl, fun s hs => hs.elim⟩
  · have hzero : dist target (search target nearest vds).setting.freq = 0 := by
      rw [search, hmeets.freq_eq, dist]
      omega
    refine .inr ⟨hmeets.chosen, ?_, fun s hs => ?_, fun s hs hp => ?_⟩
    · rw [hzero]
      decide
    · rw [hzero]
      exact Nat.zero_le _
    · have hne := hmeets.first s hs hp
      rw [hzero, dist]
      omega
  -- every setting was looked at
  have hbest : ∀ s ∈ Eligible target nearest vds,
      (search target nearest vds).minMinor ≤ dist target s.freq := fun s hs =>
    hacc.best s (.inr ⟨s.dr, (hdr s).mpr hs.1.dr_le, s.dq, (hdq s).mpr hs.1.dq_le, s.vd,
      hs.1.vd_mem,
      hself s hs⟩) hs
  obtain hstart | ⟨hin, hminor, hfar, hprior⟩ := hacc.chosen
  · rw [← search] at hstart
    rw [hstart] at hbest ⊢
    exact .inl ⟨rfl, hbest⟩
  · rw [← search] at hin hminor hfar hprior
    rw [hminor] at hbest hfar hprior
    exact .inr ⟨hin, hfar, hbest, hprior⟩

/-- The fields fit into the word of a PLL, which then makes at least 24 MHz and less than 1608
MHz. -/
structure Setting.InRange (s : Setting) : Prop where
  df_le : s.df ≤ maxDf
  dr_le : s.dr ≤ maxDr
  dq_le : s.dq ≤ maxDq
  pll_ge : (s.dr + 1) * 2 ^ s.dq ≤ 2 * (s.df + 1)
  pll_lt : 2 * (s.df + 1) < 67 * (s.dr + 1)

lemma Setting.Among.inRange {vds : List Nat} {s : Setting} (h : s.Among vds) : s.InRange := by
  obtain ⟨⟨hdf, -, hlow, hhigh⟩, hdr, hdq, -⟩ := h
  refine ⟨hdf, hdr, hdq, ?_, (Nat.div_lt_iff_lt_mul (succ_pos _)).mp (Nat.lt_succ_of_le hhigh)⟩
  have hosc : 33 * (s.dr + 1) ≤ 2 * (s.df + 1) := (Nat.le_div_iff_mul_le (succ_pos _)).mp hlow
  have hpow : 2 ^ s.dq ≤ 2 ^ 3 := Nat.pow_le_pow_right (by decide) hdq
  have hden : (s.dr + 1) * 2 ^ s.dq ≤ (s.dr + 1) * 2 ^ 3 := Nat.mul_le_mul_left _ hpow
  omega

lemma search_inRange (target : Nat) (nearest : Bool) {vds : List Nat}
    (hvds : vds.Pairwise (· > ·)) :
    (search target nearest vds).setting.InRange := by
  obtain ⟨hstart, -⟩ | hfirst := search_first target nearest hvds
  · rw [hstart]
    exact ⟨by decide, by decide, by decide, by decide, by decide⟩
  · exact hfirst.mem.1.inRange

/-! ### The search of `set_pll_divisor` -/

lemma divisors_desc (no : Nat) : (divisors no).Pairwise (· > ·) :=
  Pairwise.filter _ (show ((List.range 32).map fun k => 32 - k).Pairwise (· > ·) by decide)

lemma mem_divisors {no vd : Nat} :
    vd ∈ divisors no ↔ 1 ≤ vd ∧ vd ≤ 32 ∧ ¬(1 < vd ∧ vd % 2 = 1 ∧ (no = 2 ∨ no = 6)) := by
  simp only [divisors, mem_filter, mem_map, mem_range, decide_eq_true_eq]
  constructor
  · rintro ⟨⟨k, hk, rfl⟩, hodd⟩
    exact ⟨by omega, by omega, hodd⟩
  · rintro ⟨hpos, hle, hodd⟩
    exact ⟨⟨32 - vd, by omega, by omega⟩, hodd⟩

/-- The settings that `set_pll_divisor` chooses from. PLL 2 and 6 may be set above the target. -/
def candidates (no target : Nat) : Set Setting := Eligible target (no = 2 ∨ no = 6) (divisors no)

def divisorSetting (no target : Nat) :
    Setting := (search target (no = 2 ∨ no = 6) (divisors no)).setting

lemma divisorSetting_first (no target : Nat) :
    (divisorSetting no target = Best.start.setting ∧
        ∀ s ∈ candidates no target, far ≤ dist target s.freq) ∨
      IsFirst (candidates no target) target (divisorSetting no target) :=
  search_first target _ (divisors_desc no)

lemma divisorSetting_vd (no target : Nat) :
    1 ≤ (divisorSetting no target).vd ∧ (divisorSetting no target).vd ≤ 32 := by
  obtain ⟨hstart, -⟩ | hfirst := divisorSetting_first no target
  · rw [hstart]
    decide
  · obtain ⟨hpos, hle, -⟩ := mem_divisors.mp hfirst.mem.1.vd_mem
    exact ⟨hpos, hle⟩

/-- The nearest frequency is one of the lowest, which take the divisor 32: 93750 Hz by 33 to 66. -/
def Needs32 (no target : Nat) : Prop :=
  ∃ k, 33 ≤ k ∧ k ≤ 66 ∧ ((no = 2 ∨ no = 6) ∨ 93750 * k ≤ target) ∧ dist target (93750 * k) < far ∧
    ∀ s ∈ candidates no target, dist target (93750 * k) ≤ dist target s.freq

lemma lowRow_freq (df : Nat) : (⟨df, 1, 3, 32⟩ : Setting).freq = 93750 * (df + 1) := by
  simp only [Setting.freq]
  omega

/-- In another row than the first, the divisor 32 has nothing that a row before it has not. -/
lemma exists_prior {no target : Nat} {s : Setting} (hs : s ∈ candidates no target)
    (hvd : s.vd = 32) :
    (s.dr = 1 ∧ s.dq = 3) ∨ ∃ s' ∈ candidates no target, Prior s' s ∧ s'.freq = s.freq := by
  obtain ⟨df, dr, dq, vd⟩ := s
  obtain ⟨⟨⟨hdf, href, hlow, hhigh⟩, hdr, hdq, -⟩, hle⟩ := hs
  simp only at hvd hdf href hlow hhigh hdr hdq hle
  subst hvd
  rw [maxDr] at hdr
  have hpow : 2 ^ dq ≤ 2 ^ 3 := Nat.pow_le_pow_right (by decide) hdq
  have hpow' : 0 < 2 ^ dq := Nat.two_pow_pos _
  by_cases hrow : dr = 1 ∧ dq = 3
  · exact .inl hrow
  -- the first row of all `DQ`, with a smaller divisor for the smaller `DQ` and twice the `DF` for
  -- `DR = 0`
  have hmove : ∀ df' ≤ maxDf, 2 * (df' + 1) / 2 = 2 * (df + 1) / (dr + 1) →
      (⟨df', 1, 3, 4 * 2 ^ dq⟩ : Setting).freq = (⟨df, dr, dq, 32⟩ : Setting).freq →
      ∃ s' ∈ candidates no target, Prior s' ⟨df, dr, dq, 32⟩ ∧
        s'.freq = (⟨df, dr, dq, 32⟩ : Setting).freq := by
    intro df' hdf' hosc hfreq
    refine ⟨⟨df', 1, 3, 4 * 2 ^ dq⟩,
      ⟨⟨⟨hdf', show 10 ≤ 24 / (1 + 1) by decide, ?_, ?_⟩, le_rfl, le_rfl,
      mem_divisors.mpr ?_⟩, ?_⟩, ?_, hfreq⟩
    · exact hlow.trans hosc.ge
    · exact hosc.le.trans hhigh
    · simp only
      omega
    · rw [hfreq]
      exact hle
    · simp only [Prior]
      rw [maxDq] at hdq
      omega
  refine .inr ?_
  obtain rfl | rfl : dr = 0 ∨ dr = 1 := by omega
  · refine hmove (2 * df + 1) ?_ ?_ ?_
    · rw [maxDf]
      omega
    · omega
    · simp only [Setting.freq]
      rw [show 24 * 2 * (2 * df + 1 + 1) * 1000000 = 2 * (24 * 2 * (df + 1) * 1000000) by omega,
        show 4 * 2 ^ dq * (1 + 1) * 2 ^ 3 = 2 * (32 * (0 + 1) * 2 ^ dq) by omega,
        Nat.mul_div_mul_left _ _ (by decide)]
  · refine hmove df hdf rfl ?_
    simp only [Setting.freq]
    rw [show 4 * 2 ^ dq * (1 + 1) * 2 ^ 3 = 32 * (1 + 1) * 2 ^ dq by omega]

lemma divisorSetting_vd_eq_32 (no target : Nat) :
    (divisorSetting no target).vd = 32 ↔ Needs32 no target := by
  constructor
  · intro hvd
    obtain ⟨hstart, -⟩ | hfirst := divisorSetting_first no target
    · rw [hstart] at hvd
      exact absurd hvd (by decide)
    obtain ⟨hdr, hdq⟩ | ⟨s', hs', hp, hsame⟩ := exists_prior hfirst.mem hvd
    · generalize divisorSetting no target = s at hvd hfirst hdr hdq
      obtain ⟨df, dr, dq, vd⟩ := s
      simp only at hvd hdr hdq
      subst hvd hdr hdq
      obtain ⟨⟨⟨-, -, hlow, hhigh⟩, -⟩, hle⟩ := hfirst.mem
      have hnear := hfirst.near
      have hbest := hfirst.best
      rw [lowRow_freq] at hle hnear hbest
      simp only [decide_eq_true_eq] at hlow hhigh hle
      exact ⟨df + 1, by omega, by omega, hle, hnear, hbest⟩
    · have hlt := hfirst.first s' hs' hp
      rw [hsame] at hlt
      exact absurd hlt (lt_irrefl _)
  · rintro ⟨k, hlow, hhigh, hle, hnear, hbest⟩
    have hk : 93750 * k = (⟨k - 1, 1, 3, 32⟩ : Setting).freq := by
      rw [lowRow_freq]
      omega
    have hmem : (⟨k - 1, 1, 3, 32⟩ : Setting) ∈ candidates no target := by
      refine ⟨⟨⟨?_, show 10 ≤ 24 / (1 + 1) by decide, ?_, ?_⟩, le_rfl, le_rfl,
        mem_divisors.mpr (by simp)⟩, ?_⟩
      · simp only [maxDf]
        omega
      · simp only
        omega
      · simp only
        omega
      · rw [← hk]
        simpa using hle
    rw [hk] at hnear hbest
    obtain ⟨-, hnone⟩ | hfirst := divisorSetting_first no target
    · exact absurd (hnone _ hmem) (not_le.mpr hnear)
    by_contra hvd
    have hdr := hfirst.mem.1.dr_le
    have hdq := hfirst.mem.1.dq_le
    have hle := (divisorSetting_vd no target).2
    rw [maxDr] at hdr
    rw [maxDq] at hdq
    have hp : Prior ⟨k - 1, 1, 3, 32⟩ (divisorSetting no target) := by
      simp only [Prior]
      omega
    exact absurd (hfirst.first _ hmem hp) (not_lt.mpr (hbest _ hfirst.mem))

/-- A setting within the limits of the loops. -/
structure Setting.Admissible (s : Setting) : Prop where
  limits : s.Limits
  dr_le : s.dr ≤ maxDr
  dq_le : s.dq ≤ maxDq
  vd_pos : 1 ≤ s.vd
  vd_le : s.vd ≤ 32

lemma mem_candidates {no : Nat} (h2 : no ≠ 2) (h6 : no ≠ 6) {target : Nat} {s : Setting} :
    s ∈ candidates no target ↔ s.Admissible ∧ s.freq ≤ target := by
  have hnearest : ¬(no = 2 ∨ no = 6) := by simp [h2, h6]
  constructor
  · rintro ⟨⟨hlim, hdr, hdq, hvd⟩, hle⟩
    obtain ⟨hpos, hvd32, -⟩ := mem_divisors.mp hvd
    exact ⟨⟨hlim, hdr, hdq, hpos, hvd32⟩, by simpa [hnearest] using hle⟩
  · rintro ⟨⟨hlim, hdr, hdq, hpos, hvd32⟩, hle⟩
    exact ⟨⟨hlim, hdr, hdq, mem_divisors.mpr ⟨hpos, hvd32, fun hodd => hnearest hodd.2.2⟩⟩,
      .inr hle⟩

/-! ### Registers -/

variable {dev : Dev} {no offset other : Nat} {s : Setting}

lemma Dev.id_lt (dev : Dev) : dev.id < 128 := by cases dev <;> decide

/-- The PLLs are 0 to 6, and the divisors have registers behind those of the PLLs and of the clock
enables. -/
def PllNum.inMap : PllNum → Bool
  | .pll no offset => no ≤ 6 && 0x300 ≤ offset
  | _ => true

lemma inMap_calcPllNum (dev : Dev) : (calcPllNum dev).inMap = true := by cases dev <;> rfl

variable (h : calcPllNum dev = .pll no offset)
include h

lemma calcPllNum_pll : no ≤ 6 ∧ 0x300 ≤ offset := by
  have hdev := inMap_calcPllNum dev
  rw [h] at hdev
  simpa [PllNum.inMap] using hdev

lemma pmcPll_ne_offset : pmcPll no ≠ offset := by
  obtain ⟨hno, hoffset⟩ := calcPllNum_pll h
  rw [pmcPll]
  omega

lemma pmcClk_ne_offset : pmcClk dev ≠ offset := by
  obtain ⟨-, hoffset⟩ := calcPllNum_pll h
  have hid := dev.id_lt
  rw [pmcClk]
  omega

omit h

namespace Pmc
variable (p : Pmc)

@[simp] lemma write_reg_self (offset : Nat) (val : BitVec 32) :
    (p.write offset val).reg offset = val :=
  Function.update_self _ _ _

lemma write_reg_of_ne (val : BitVec 32) (h : other ≠ offset) :
    (p.write offset val).reg other = p.reg other :=
  Function.update_of_ne h _ _

lemma divByte_write_of_ne (val : BitVec 32) (h : other ≠ offset) :
    (p.write offset val).divByte other = p.divByte other := by
  rw [divByte, write_reg_of_ne p val h, divByte]

lemma selectTv_reg_of_ne (dev : Dev) (h : other ≠ offset) :
    (p.selectTv dev offset).reg other = p.reg other :=
  write_reg_of_ne p _ h

lemma divByte_selectTv (dev : Dev) (offset : Nat) :
    (p.selectTv dev offset).divByte offset = p.divByte offset := by
  have hlow : ∀ v : BitVec 32, v.setWidth 8 = 0#8 →
      ((p.reg offset &&& ~~~0xFF0000#32) ||| v).setWidth 8 = (p.reg offset).setWidth 8 := by
    intro v hv
    rw [BitVec.setWidth_or, hv, BitVec.or_zero, BitVec.setWidth_and]
    have hones : (~~~0xFF0000#32).setWidth 8 = BitVec.allOnes 8 := by decide
    rw [hones, BitVec.and_allOnes]
  have hbyte : ∀ x : BitVec 32, x.toNat % 256 = (x.setWidth 8).toNat := by
    intro x
    rw [BitVec.toNat_setWidth]
  rw [divByte, divByte, selectTv, write_reg_self, hbyte, hbyte]
  congr 1
  apply hlow
  split <;> decide

include h in
lemma clkEnabled_selectTv : (p.selectTv dev offset).clkEnabled dev = p.clkEnabled dev := by
  rw [clkEnabled, selectTv_reg_of_ne p dev (pmcClk_ne_offset h), clkEnabled]

end Pmc

/-! ### The frequency of a word and a divisor -/

def pllFreq (word div : Nat) :
    Nat := 24 * getDivf word * 1000000 / (getDivr word * getDivq word * div)

include h in
lemma getFreq_fst (p : Pmc) :
    (getFreq dev p).1 = wrapInt ↑(pllFreq (p.reg (pmcPll no)).toNat
      (divisorOf dev (p.divByte offset))) := by
  simp only [getFreq, h]
  rw [p.divByte_selectTv, p.selectTv_reg_of_ne dev (pmcPll_ne_offset h), pllFreq]

lemma toNat_pllWord (hs : s.InRange) : (pllWord s).toNat = s.df * 2 ^ 16 + s.dr * 2 ^ 8 + s.dq := by
  obtain ⟨hdf, hdr, hdq⟩ := hs
  rw [maxDf] at hdf
  rw [maxDr] at hdr
  rw [maxDq] at hdq
  rw [pllWord, BitVec.toNat_ofNat, shiftLeft_eq, shiftLeft_eq]
  exact mod_eq_of_lt (by omega)

lemma fields_pllWord (hs : s.InRange) :
    getDivf (pllWord s).toNat = (s.df + 1) * 2 ∧ getDivr (pllWord s).toNat = s.dr + 1 ∧
      getDivq (pllWord s).toNat = 2 ^ s.dq := by
  have hword := toNat_pllWord hs
  obtain ⟨hdf, hdr, hdq⟩ := hs
  rw [maxDf] at hdf
  rw [maxDr] at hdr
  rw [maxDq] at hdq
  refine ⟨?_, ?_, ?_⟩
  · have hmask : (pllWord s).toNat >>> 16 &&& maxDf = s.df := by
      rw [maxDf, and_two_pow_sub_one_eq_mod _ 7]
      omega
    rw [getDivf, hmask]
  · have hmask : (pllWord s).toNat >>> 8 &&& maxDr = s.dr := by
      rw [maxDr, and_two_pow_sub_one_eq_mod _ 1]
      omega
    rw [getDivr, hmask]
  · have hmask : (pllWord s).toNat &&& maxDq = s.dq := by
      rw [maxDq, and_two_pow_sub_one_eq_mod _ 2]
      omega
    rw [getDivq, hmask, one_shiftLeft]

lemma pllFreq_pllWord (hs : s.InRange) : pllFreq (pllWord s).toNat s.vd = s.freq := by
  obtain ⟨hf, hr, hq⟩ := fields_pllWord hs
  rw [pllFreq, hf, hr, hq, Setting.freq, mul_comm (s.df + 1) 2, ← mul_assoc,
    mul_comm (_ * 2 ^ s.dq) s.vd, ← mul_assoc]

lemma pllFreq_anti {word d d' : Nat} (hpos : 0 < d) (hle : d ≤ d') :
    pllFreq word d' ≤ pllFreq word d := by
  have hdivr : 0 < getDivr word := succ_pos _
  have hdivq : 0 < getDivq word := by
    rw [getDivq, one_shiftLeft]
    exact Nat.two_pow_pos _
  exact div_le_div_left (Nat.mul_le_mul_left _ hle) (Nat.mul_pos (Nat.mul_pos hdivr hdivq) hpos)

lemma divByte_divWord (p : Pmc) (dev : Dev) (offset : Nat) {j : Bool} {div : Nat}
    (hj : dev = .na0 → j = false) (hle : div ≤ 32) :
    (p.write offset (divWord dev j div)).divByte offset = (if j then 32 else 0) + if div = 32 then 0
      else div := by
  rw [Pmc.divByte, Pmc.write_reg_self, divWord]
  generalize hfield : (if div = 32 then 0 else div) = field
  have hlt : field < 32 := by
    rw [← hfield]
    split <;> omega
  split
  · rename_i hna0
    rw [hj hna0]
    have hor : (0x200#32 ||| BitVec.ofNat 32 field).toNat = 0x200 + field := by
      have hlt' : field < 2 ^ 9 := by omega
      have hadd := two_pow_add_eq_or_of_lt hlt' 1
      have hfieldNat : (BitVec.ofNat 32 field).toNat = field := mod_eq_of_lt (by omega)
      rw [BitVec.toNat_or, hfieldNat]
      exact hadd.symm
    simp only [Bool.false_eq_true, if_false]
    omega
  · rw [BitVec.toNat_ofNat]
    split <;> split <;> omega

/-! ### The commands -/

/-- The target of `set_divisor`, which takes every other unit as Hz. -/
def divisorTarget (unit freq : Int) :
    Nat := toHz freq (if unit = 1 then 1000 else if unit = 2 then 1000000 else 1)

/-- The factor 64 of the SD/MMC devices is on for targets up to a 64th of the frequency of the
PLL. -/
def lowRange (dev : Dev) (word target : Nat) :
    Bool := dev.isSdmmc && decide (target ≤ pllFreq word 1 / 64)

def divFactor (dev : Dev) (j : Bool) : Nat := if dev.isSdmmc then (if j then 64 else 1) * 2 else 1

/-- After `set_divisor`: the first divisor that is not above the target. Odd ones do not count with
PLL 2. -/
structure DivisorSet (dev : Dev) (no offset target : Nat) (p : Pmc) (run : Int × Pmc) (div : Nat) :
    Prop where
  pll : run.2.reg (pmcPll no) = p.reg (pmcPll no)
  pos : 1 ≤ div
  le : div ≤ 32
  counts : ¬(1 < div ∧ div % 2 = 1 ∧ no = 2)
  byte : run.2.divByte offset =
    (if lowRange dev (p.reg (pmcPll no)).toNat target then 32 else 0) +
      (if div = 32 then 0 else div)
  least : ∀ i, 1 ≤ i → i < div → ¬(1 < i ∧ i % 2 = 1 ∧ no = 2) →
    target < pllFreq (p.reg (pmcPll no)).toNat
      (i * divFactor dev (lowRange dev (p.reg (pmcPll no)).toNat target))
  le_target : pllFreq (p.reg (pmcPll no)).toNat
    (div * divFactor dev (lowRange dev (p.reg (pmcPll no)).toNat target)) ≤ target
  ret : run.1 = wrapInt ↑(pllFreq (p.reg (pmcPll no)).toNat
    (div * divFactor dev (lowRange dev (p.reg (pmcPll no)).toNat target)))

include h in
lemma setDivisor_spec (unit freq : Int) (p : Pmc) (hret : (setDivisor dev unit freq p).1 ≠ -1) :
    ∃ div, DivisorSet dev no offset (divisorTarget unit freq) p (setDivisor dev unit freq p)
      div := by
  have hpll := p.selectTv_reg_of_ne dev (pmcPll_ne_offset h)
  simp only [setDivisor, h, hpll] at hret ⊢
  by_cases hen : (p.selectTv dev offset).clkEnabled dev
  · rw [if_neg (by simp [hen])] at hret ⊢
    rw [← divisorTarget] at hret ⊢
    have hj : (dev.isSdmmc && decide (divisorTarget unit freq ≤
        24 * getDivf (p.reg (pmcPll no)).toNat * 1000000 /
          (getDivr (p.reg (pmcPll no)).toNat * getDivq (p.reg (pmcPll no)).toNat) / 64)) =
        lowRange dev (p.reg (pmcPll no)).toNat (divisorTarget unit freq) := by
      rw [lowRange, pllFreq, mul_one]
    rw [hj, ← divFactor] at hret ⊢
    generalize hfound : find? _ _ = found at hret ⊢
    cases found with
    | none => exact absurd rfl hret
    | some div =>
      obtain ⟨htest, hmem, hleast⟩ := find?_range'_eq_some.mp hfound
      rw [mem_range'_1] at hmem
      simp only [decide_eq_true_eq] at htest
      have hna0 : dev = .na0 →
          lowRange dev (p.reg (pmcPll no)).toNat (divisorTarget unit freq) = false := by
        rintro rfl
        rfl
      refine ⟨div, ?_, hmem.1, by omega, htest.1, ?_, fun i hpos hlt hodd => ?_, ?_, ?_⟩
      · rw [Pmc.write_reg_of_ne _ _ (pmcPll_ne_offset h), hpll]
      · exact divByte_divWord _ dev offset hna0 (by omega)
      · have hnot := hleast i hpos hlt
        simp only [Bool.not_eq_true', decide_eq_false_iff_not, not_and, not_le] at hnot
        exact hnot (by simpa using hodd)
      · exact htest.2
      · rw [pllFreq]
  · rw [if_pos (by simp [hen])] at hret
    exact absurd rfl hret

structure PllSet (no : Nat) (s : Setting) (run : Int × Pmc) : Prop where
  inRange : s.InRange
  ret : run.1 = wrapInt ↑s.freq
  word : run.2.reg (pmcPll no) = pllWord s

def speedSetting (no target divisor : Nat) : Setting :=
  { (search target (no = 2) [divisor]).setting with vd := divisor }

include h in
lemma setPllSpeed_spec (unit freq : Int)
    (p : Pmc) (hret : (setPllSpeed dev unit freq p).1 ≠ -1) : ∃ base, unitBase unit = some base ∧
      PllSet no (speedSetting no (toHz freq base) (p.divByte offset))
        (setPllSpeed dev unit freq p) ∧
      (setPllSpeed dev unit freq p).2.divByte offset = p.divByte offset := by
  simp only [setPllSpeed, h, p.divByte_selectTv] at hret ⊢
  cases hunit : unitBase unit with
  | none =>
    rw [hunit] at hret
    exact absurd rfl hret
  | some base =>
    obtain ⟨hdf, hdr, hdq, hge, hlt⟩ := search_inRange (toHz freq base) (no = 2)
      (pairwise_singleton (· > ·) (p.divByte offset))
    refine ⟨base, rfl, ⟨⟨hdf, hdr, hdq, hge, hlt⟩, ?_, ?_⟩, ?_⟩
    · rw [speedSetting]
    · rw [speedSetting, Pmc.write_reg_self]
    · rw [Pmc.divByte_write_of_ne _ _ (pmcPll_ne_offset h).symm, p.divByte_selectTv]

include h in
/-- A run of `set_pll_divisor` on a device with its clock on. The divisor 32 is stored as 0,
unless the byte was 32 before and is left alone. -/
lemma setPllDivisor_run {unit : Int} (freq : Int)
    {base : Nat} (hunit : unitBase unit = some base) (p : Pmc) (hen : p.clkEnabled dev = true) :
    PllSet no (divisorSetting no (toHz freq base)) (setPllDivisor dev unit freq p) ∧
      (setPllDivisor dev unit freq p).2.divByte offset =
        if (divisorSetting no (toHz freq base)).vd = 32 ∧ p.divByte offset ≠ 32 then 0
        else (divisorSetting no (toHz freq base)).vd := by
  have hrange := search_inRange (toHz freq base) (no = 2 ∨ no = 6) (divisors_desc no)
  have hle := (divisorSetting_vd no (toHz freq base)).2
  have hne := pmcPll_ne_offset h
  have hfalse : dev = .na0 → false = false := fun _ => rfl
  simp only [setPllDivisor, h, hunit, p.divByte_selectTv, p.clkEnabled_selectTv h, hen]
  rw [divisorSetting] at hle ⊢
  generalize (search (toHz freq base) (no = 2 ∨ no = 6) (divisors no)).setting = s at hrange hle ⊢
  simp only [not_true_eq_false, if_false]
  obtain hlt | heq | hgt := lt_trichotomy (p.divByte offset) s.vd
  · rw [if_pos hlt, if_neg (lt_asymm hlt)]
    refine ⟨⟨hrange, by simp, by rw [Pmc.write_reg_self]⟩, ?_⟩
    rw [Pmc.divByte_write_of_ne _ _ hne.symm, divByte_divWord _ dev offset hfalse hle]
    have hfield : s.vd = 32 ∧ p.divByte offset ≠ 32 ↔ s.vd = 32 := by omega
    simp [hfield]
  · rw [if_neg (not_lt.mpr heq.ge), if_neg (not_lt.mpr heq.le)]
    refine ⟨⟨hrange, by simp, by rw [Pmc.write_reg_self]⟩, ?_⟩
    rw [Pmc.divByte_write_of_ne _ _ hne.symm, p.divByte_selectTv, heq, if_neg (by simp)]
  rw [if_pos hgt]
  refine ⟨⟨hrange, by simp, ?_⟩, ?_⟩
  · rw [Pmc.write_reg_of_ne _ _ hne, Pmc.write_reg_self]
  · rw [divByte_divWord _ dev offset hfalse hle]
    have hfield : s.vd = 32 ∧ p.divByte offset ≠ 32 ↔ s.vd = 32 := by omega
    simp [hfield]

include h in
lemma setPllDivisor_ne {unit freq : Int} {p : Pmc} (hret : (setPllDivisor dev unit freq p).1 ≠ -1) :
    (∃ base, unitBase unit = some base) ∧ p.clkEnabled dev = true := by
  simp only [setPllDivisor, h, p.clkEnabled_selectTv h] at hret
  cases hunit : unitBase unit with
  | none =>
    rw [hunit] at hret
    exact absurd rfl hret
  | some base =>
    rw [hunit] at hret
    refine ⟨⟨base, rfl⟩, ?_⟩
    by_contra hoff
    simp only [hoff] at hret
    exact absurd rfl hret

end Wm8850.Clk
