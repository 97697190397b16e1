import Wm8850.Battery.Update
import Wm8850.Proofs.Battery.Curve

/-! # A full battery, and the steps of the capacity

A session that ends with the status full and an adapter has the capacity 100, except in two branches
of `wmt_bat_update`: without the ADC it is 50, and when the ADC says that the battery is full it is
0.

The capacity that `wmt_read_capacity` keeps moves by at most 3, unless the readings before were
rejected (`Calls`).
-/

namespace Wm8850.Battery

open List

variable {cfg : Config} {s : State} {x : Sample}

lemma chargeUpdate_full (hs : s.sesn.status = .full ∨ s.sesn.status = .charging)
    (hfull : (chargeUpdate cfg s x).sesn.status = .full) :
    (chargeUpdate cfg s x).sesn.capacity = 100 ↔ s.sesn.status = .full := by
  unfold chargeUpdate at hfull ⊢
  split
  next hne => exact iff_of_true rfl (hs.resolve_right hne)
  next hcharge =>
    have hcharge : s.sesn.status = .charging := not_not.mp hcharge
    rw [if_neg (not_not.mpr hcharge)] at hfull
    split
    · simp [hcharge]
    next hjudge =>
      rw [if_neg hjudge] at hfull
      exact absurd (hcharge.symm.trans hfull) (by simp)

lemma dischargeUpdate_dcin (cfg : Config) (s : State) (x : Sample) :
    (dischargeUpdate cfg s x).sesn.dcin = s.sesn.dcin := by
  unfold dischargeUpdate
  dsimp only
  split <;> rfl

/-- With an adapter, the status after the reads is full or charging. -/
theorem operationUpdate_full (hs : s.sesn.dcin = true → s.sesn.status = .full ∨
    s.sesn.status = .charging)
    (hfull : (operationUpdate cfg s x).sesn.status = .full)
    (hdcin : (operationUpdate cfg s x).sesn.dcin = true) :
    s.sesn.dcin = true ∧ ((operationUpdate cfg s x).sesn.capacity = 100 ↔
      cfg.adcUsed = true ∧ s.sesn.status = .full) := by
  unfold operationUpdate at hfull hdcin ⊢
  split
  next hlow =>
    rw [if_pos hlow] at hdcin
    exact absurd hdcin (by simpa using hlow.2)
  next hlow =>
    rw [if_neg hlow] at hfull hdcin
    split
    next hadc =>
      rw [if_pos hadc] at hdcin hfull
      have hd : s.sesn.dcin = true := hdcin
      have hf : s.sesn.status = .full := hfull
      simp [hd, hf, show cfg.adcUsed = false by simpa using hadc]
    next hadc =>
      rw [if_neg hadc] at hdcin hfull
      split
      next hd =>
        rw [if_pos hd] at hfull
        refine ⟨hd, ?_⟩
        rw [chargeUpdate_full (hs hd) hfull]
        simp [show cfg.adcUsed = true by simpa using hadc]
      next hd =>
        rw [if_neg hd, dischargeUpdate_dcin] at hdcin
        exact absurd hdcin hd

lemma wmtReadStatus_of_dcin {sesn : Session} (h : sesn.dcin = true) :
    wmtReadStatus cfg sesn x = .full ∨ wmtReadStatus cfg sesn x = .charging := by
  rw [wmtReadStatus, if_pos h]
  generalize (if cfg.batstateActive = true then !x.batstate else x.batstate) = full
  cases full
  · exact .inr rfl
  · exact .inl rfl

/-- At the end of every sequence of polls and suspends: when the last poll leaves the status full
and an adapter, the capacity is 100 exactly in the debug mode, without operation, or with the ADC
when the charger says full. -/
theorem full_capacity_iff (cfg : Config) (events : List Event) (early x : Sample) :
    let s := events.foldl (Event.exec cfg) start
    let t := Event.exec cfg s (.work early x)
    t.sesn.status = .full → t.sesn.dcin = true → (t.sesn.capacity = 100 ↔ cfg.debugMode = true ∨
      cfg.battOperation = false ∨ cfg.adcUsed = true ∧ (s.sesn.poll cfg x).status = .full) := by
  intro s t hfull hdcin
  -- what the work read first is read again
  have hpoll : (Session.poll cfg { s.sesn with dcin := wmtReadDcinDT cfg early } x) =
    s.sesn.poll cfg x := rfl
  simp only [t, Event.exec, wmtBatUpdate, hpoll] at hfull hdcin ⊢
  by_cases hdebug : cfg.debugMode = true
  · rw [if_pos hdebug] at hfull hdcin ⊢
    have hd : (s.sesn.poll cfg x).dcin = true := hdcin
    have hf : (s.sesn.poll cfg x).status = .full := hfull
    simp [debugCapacity, hd, hf, hdebug]
  · rw [if_neg hdebug] at hfull hdcin ⊢
    by_cases hop : cfg.battOperation = true
    · rw [if_pos hop] at hfull hdcin ⊢
      have hres := operationUpdate_full (fun hd => wmtReadStatus_of_dcin hd) hfull hdcin
      simpa [hdebug, hop] using hres.2
    · simp [hop]

def midConfig : Config :=
  { debugMode := false, battOperation := true, adcUsed := true, judgeChargeFull := true
    chargeByUsb := false, chargeMax := 0xE07, dischargeVp := defaultVp
    calibration := ⟨[⟨0, 0⟩], [⟨0, 0⟩], [⟨0, 0⟩]⟩, isForOldVersion := false, dcinActive := true
    batstateActive := false, batlowActive := true }

def pluggedIn (batstate : Bool) (adc : Nat) : Sample :=
  { dcin := true, usb := false, batstate := batstate, batlow := true, batlowEarly := true
    batlowLate := true, adcFull := adc, adc := adc, usage := fun _ => 0 }

/-- The charger says full at the second poll. -/
theorem full_capacity_charger :
    let t := Event.exec midConfig (Event.exec midConfig start
      (.work (pluggedIn false 0xD00) (pluggedIn false 0xD00)))
        (.work (pluggedIn true 0xE00) (pluggedIn true 0xE00))
    t.sesn.status = .full ∧ t.sesn.capacity = 100 := by
  refine ⟨by decide, ?_⟩
  exact (full_capacity_iff midConfig [.work (pluggedIn false 0xD00) (pluggedIn false 0xD00)]
    (pluggedIn true 0xE00)
    (pluggedIn true 0xE00) (by decide) (by decide)).mpr (.inr (.inr (by decide)))

/-- The ADC says full and the capacity is 0, or the ADC is not in use and the capacity is 50. -/
theorem full_not_hundred :
    (Event.exec midConfig start (.work (pluggedIn false 0xE07) (pluggedIn false 0xE07))).sesn =
      { low := false, dcin := true, status := .full, isBatterypower := false, capacity := 0 } ∧
    (Event.exec { midConfig with adcUsed := false } start
        (.work (pluggedIn true 0xE07) (pluggedIn true 0xE07))).sesn =
      { low := false, dcin := true, status := .full, isBatterypower := false, capacity := 50 } := by
  decide

/-! ### The capacity from call to call -/

lemma convertValue_range (cap : Int) :
    5 ∣ convertValue cap ∧ 0 ≤ convertValue cap ∧ convertValue cap ≤ 100 := by
  unfold convertValue
  dsimp only
  split_ifs <;> omega

lemma wmtReadCapacity_range (cfg : Config) (dcin : Bool) (h : History) (x : Sample) :
    5 ∣ (wmtReadCapacity cfg dcin h x).2 ∧ 0 ≤ (wmtReadCapacity cfg dcin h x).2 ∧
      (wmtReadCapacity cfg dcin h x).2 ≤ 100 := by
  unfold wmtReadCapacity readCapacity History.judge
  dsimp only
  split
  · split
    · exact (by decide : (5 : Int) ∣ 0 ∧ (0 : Int) ≤ 0 ∧ (0 : Int) ≤ 100)
    · split <;> exact convertValue_range _
  · exact convertValue_range _

def Verdict.count : Verdict → Nat → Nat
  | .rejected, k => k + 1
  | .accepted, _ => 0
  | _, k => k

/-- One call, with the power source of the moment, and the number of readings that were rejected
since the last accepted one. -/
def call (cfg : Config) (s : History × Nat) (x : Bool × Sample) : History × Nat :=
  ((wmtReadCapacity cfg x.1 s.1 x.2).1, (readCapacity cfg x.1 s.1 x.2).1.count s.2)

/-- The capacity changes by more than 3. -/
def Jumps (h h' : History) : Prop := h'.oldCapacity - h.oldCapacity > 3 ∨
    h.oldCapacity - h'.oldCapacity > 3

/-- After `n` calls. The counter of the code is the number of the rejected readings. -/
structure Calls (s : History × Nat) (n : Nat) : Prop where
  first : s.1.oldCapacity = -1 ∧ n = 0 ∨ 0 ≤ s.1.oldCapacity ∧ 0 < n
  lowest : -1 ≤ s.1.oldLowestCapacity
  hops : s.1.judgeVoltageHopNextTime = s.2 ∧ s.2 ≤ 4

section
variable {h : History} {s : History × Nat} {n k : Nat}

lemma Calls.judge (hc : Calls (h, k) n) {capacity : Int} (hpos : 0 ≤ capacity) :
    Calls ((h.judge capacity).2.1, (h.judge capacity).1.count k) (n + 1) ∧
      (Jumps h (h.judge capacity).2.1 → n = 0 ∨ 4 ≤ k) := by
  obtain ⟨hfirst, hlowest, hhops⟩ := hc
  dsimp only at hfirst hlowest hhops
  unfold History.judge
  dsimp only
  split
  all_goals refine ⟨⟨?_, ?_, ?_⟩, ?_⟩ <;> dsimp only [Verdict.count, Jumps] <;> omega

variable (hf : Fits cfg.dischargeVp) (hc : Calls s n)
include hf hc

lemma Calls.call (x : Bool × Sample) : Calls (call cfg s x) (n + 1) ∧
    (Jumps s.1 (wmtReadCapacity cfg x.1 s.1 x.2).1 → n = 0 ∨ 4 ≤ s.2 ∨
      wmtReadBatlowDT cfg x.2.batlowLate = true ∧
        (wmtReadCapacity cfg x.1 s.1 x.2).1.oldCapacity = 0) := by
  obtain ⟨h, k⟩ := s
  obtain ⟨dcin, x⟩ := x
  unfold Battery.call wmtReadCapacity readCapacity
  dsimp only
  split
  · split
    · next hlow =>
      exact ⟨⟨.inr ⟨le_refl 0, Nat.succ_pos n⟩, hc.lowest, hc.hops⟩,
        fun _ => .inr (.inr ⟨hlow.1, rfl⟩)⟩
    next hlow =>
    have hsample : Calls ({ h.sample x.adc with oldLowestAdc := some (h.sample x.adc).smoothAdc },
      k) n :=
      ⟨hc.first, hc.lowest, hc.hops⟩
    -- a capacity below 5 with a low battery is the shutdown
    have hcap : 0 ≤ evaluate cfg dcin x (wmtReadBatlowDT cfg x.batlowLate)
        (h.sample x.adc).smoothAdc := by
      cases hlate : wmtReadBatlowDT cfg x.batlowLate with
      | true =>
        rw [hlate] at hlow
        have := not_and.mp hlow rfl
        omega
      | false =>
        obtain ⟨c, hc, hpos⟩ :=
          adc2cap_nonneg hf (adcRepair cfg dcin x.usage (h.sample x.adc).smoothAdc)
        simp [evaluate, hc, hpos]
    have hsmooth : ∀ c, 0 ≤ c → 0 ≤ (h.sample x.adc).smoothCapacity c := by
      have := hsample.lowest
      unfold History.smoothCapacity
      dsimp only at this ⊢
      split_ifs <;> omega
    obtain ⟨hcalls, hjump⟩ := hsample.judge (hsmooth _ hcap)
    exact ⟨hcalls, fun hj => (hjump hj).imp_right .inl⟩
  · have hfirst := hc.first
    refine ⟨⟨?_, hc.lowest, hc.hops⟩, ?_⟩ <;> dsimp only [History.sample, Jumps] at * <;> omega

lemma Calls.foldl (xs : List (Bool × Sample)) :
    Calls (xs.foldl (Battery.call cfg) s) (n + xs.length) := by
  induction xs generalizing s n with
  | nil => exact hc
  | cons x xs ih =>
    rw [length_cons, Nat.add_comm xs.length, ← Nat.add_assoc]
    exact ih (hc.call hf x).1

end

/-- For every sequence of readings: the value of the next call is a multiple of 5 in 0..100. With a
curve on which `adc2cap` does not overflow, the capacity that is kept changes by more than 3 only at
the first call, after four rejected readings since the last accepted one, or when a low battery sets
it to 0. -/
theorem capacity_steps (cfg : Config) (xs : List (Bool × Sample)) (x : Bool × Sample) :
    let s := xs.foldl (call cfg) (start.hist, 0)
    let r := wmtReadCapacity cfg x.1 s.1 x.2
    (5 ∣ r.2 ∧ 0 ≤ r.2 ∧ r.2 ≤ 100) ∧ (Fits cfg.dischargeVp → Jumps s.1 r.1 →
      xs = [] ∨ 4 ≤ s.2 ∨ wmtReadBatlowDT cfg x.2.batlowLate = true ∧ r.1.oldCapacity = 0) := by
  refine ⟨wmtReadCapacity_range cfg _ _ _, fun hf hjump => ?_⟩
  have hstart : Calls (start.hist, 0) 0 := ⟨.inl ⟨rfl, rfl⟩, by decide, rfl, by decide⟩
  have hcalls := hstart.foldl hf xs
  rw [Nat.zero_add] at hcalls
  exact ((hcalls.call hf x).2 hjump).imp_left length_eq_zero_iff.mp

/-- The readings of a battery that falls from 100 to 30. -/
def fallingReadings : List (Bool × Sample) :=
  (true, pluggedIn false 0xEB3) :: List.replicate 24 (true, pluggedIn false 0xD6C)

/-- The fall is taken after four readings that were rejected. -/
theorem capacity_falls :
    let s := fallingReadings.foldl (call midConfig) (start.hist, 0)
    let r := wmtReadCapacity midConfig true s.1 (pluggedIn false 0xD6C)
    s.1.oldCapacity = 100 ∧ r.1.oldCapacity = 30 ∧ r.2 = 35 ∧ 4 ≤ s.2 := by
  refine ⟨by decide +kernel, by decide +kernel, by decide +kernel, ?_⟩
  have hfits : Fits midConfig.dischargeVp := ⟨by unfold Narrow; decide, by decide⟩
  have hjump := (capacity_steps midConfig fallingReadings (true, pluggedIn false 0xD6C)).2 hfits
    (by unfold Jumps; decide +kernel)
  exact (hjump.resolve_left (cons_ne_nil _ _)).resolve_right (by decide +kernel)

/-- On a curve with an overflow the first evaluation accepts the capacity `-1`, which then counts as
"no call yet": the fifth call goes to 100 although no reading was rejected and the battery is not
low. -/
theorem wideVp_jumps :
    let cfg := { midConfig with dischargeVp := wideVp }
    let readings := (true, pluggedIn false 0) :: List.replicate 3 (true, pluggedIn false 3700)
    let s := readings.foldl (call cfg) (start.hist, 0)
    let r := wmtReadCapacity cfg true s.1 (pluggedIn false 3700)
    s.1.oldCapacity = -1 ∧ s.2 = 0 ∧ r.1.oldCapacity = 100 ∧
      wmtReadBatlowDT cfg (pluggedIn false 3700).batlowLate = false := by
  decide +kernel

end Wm8850.Battery
