import Wm8850.Proofs.Dma.Ring

/-! # Flags and counts over the runs of a channel

`FlagsInv` is the invariant of `add_descript`; a call with more parts sets the end flag on its last
two descriptors, and a part that reaches the chunk size is counted twice (`flags_wrong`). `Counted`:
`residue_des0cnt` is the number of unfinished descriptors. A start that fills the ring is clipped,
and a refused wake adds its error to the count. -/

namespace Wm8850.Dma

open Lib List Nat

/-! ### The flags -/

variable {size : Nat} {s : AddState}

lemma parts_single (hpos : 0 < size) (hle : size ≤ size32KB) : parts size = [size] := by
  unfold parts
  rcases lt_or_eq_of_le hle with hlt | rfl
  · rw [div_eq_of_lt hlt, mod_eq_of_lt hlt, if_neg (by omega)]
    rfl
  · rfl

section
variable {c : Chan} {cfg : Cfg} {garbage : Attr} {dmaPtr size : Nat}

section
variable (hcnt : c.des0cnt < c.maxDes0cnt)
include hcnt

lemma addDescript_loop (hok : 0 ≤ (addDescript c cfg garbage dmaPtr size).1) :
    (addDescript c cfg garbage dmaPtr size).2 =
      (addLoop cfg size ⟨c, garbage, dmaPtr, size, 0⟩).chan := by
  obtain ⟨hready, hroom, -, -⟩ := addDescript_accepted hcnt hok
  unfold addDescript
  rw [hready.ok]
  rw [if_neg (by omega)]

lemma addDescript_empty (hok : 0 ≤ (addDescript c cfg garbage dmaPtr 0).1) :
    (addDescript c cfg garbage dmaPtr 0).2 = c := by
  rw [addDescript_loop hcnt hok, addLoop, if_neg (lt_irrefl 0)]

lemma addDescript_single (hpos : 0 < size) (hle : size ≤ size32KB)
    (hok : 0 ≤ (addDescript c cfg garbage dmaPtr size).1) :
    ∃ l, Round cfg size ⟨c, garbage, dmaPtr, size, 0⟩ l ∧
      (addDescript c cfg garbage dmaPtr size).2 = l.chan := by
  obtain ⟨hready, -, -, -⟩ := addDescript_accepted hcnt hok
  refine ⟨_, addStep_round size hready, ?_⟩
  rw [addDescript_loop hcnt hok, addLoop, if_pos hpos, addLoop, residueSize_addStep,
    Nat.sub_eq_zero_of_le hle, if_neg (lt_irrefl 0)]

end

end

/-- `accu_size` is ahead by the part that last reached the chunk size. -/
structure FlagsInv (s : AddState) : Prop where
  pos : 0 < s.chan.maxDes0cnt
  cnt : s.chan.des0cnt = s.reached.length % s.chan.maxDes0cnt
  accu : s.chan.accuSize = s.accu + s.last
  small : s.accu + s.last + size32KB < wordSize
  right : FlagsRight s

lemma FlagsInv.lt (h : FlagsInv s) : s.chan.des0cnt < s.chan.maxDes0cnt := by
  rw [h.cnt]
  exact mod_lt _ h.pos

lemma flagsInv_of_initial (h : AddInitial s) : FlagsInv s := by
  obtain ⟨device, cfg, phyAddr, des0, rfl⟩ := h
  refine ⟨succ_pos _, rfl, rfl, show 0 + 0 + size32KB < wordSize by decide, ?_, ?_⟩
  · intro k hk
    cases hk
  · intro k flag hk
    cases hk

lemma FlagsRight.round {cfg : Cfg} {l l' : AddLoop} {flag : Bool} {accu last : Nat}
    (h : FlagsInv s) (hchan : ∀ slot, descAt l.chan slot = descAt s.chan slot)
    (hcnt : l.chan.des0cnt = s.chan.des0cnt) (hmax : l.chan.maxDes0cnt = s.chan.maxDes0cnt)
    (hround : Round cfg l.residueSize l l') (hend : endOf l = 1)
    (hflag : decide (intenOf cfg l = 1) = flag) :
    FlagsRight ⟨l'.chan, s.reached ++ [flag], accu, last⟩ := by
  have hlen : (s.reached ++ [flag]).length = s.reached.length + 1 := by simp
  have hmax' : l'.chan.maxDes0cnt = s.chan.maxDes0cnt := hround.same.max.trans hmax
  have hnew := hround.slot
  rw [hcnt, h.cnt, hend, hflag] at hnew
  -- A descriptor that was there before, and is still in the ring.
  have hold : ∀ k < s.reached.length, s.reached.length + 1 ≤ k + s.chan.maxDes0cnt →
      descAt l'.chan (k % s.chan.maxDes0cnt) =
        { descAt s.chan (k % s.chan.maxDes0cnt) with ends := false } := by
    intro k hk hqueued
    have hne : k % s.chan.maxDes0cnt ≠ s.reached.length % s.chan.maxDes0cnt := ring_ne hk (by omega)
    have hother := hround.others (k % s.chan.maxDes0cnt) (by rw [hmax]; exact mod_lt _ h.pos)
      (by rw [hcnt, h.cnt]; exact hne)
    rw [hother, hchan]
    split
    · rfl
    next hlast =>
    -- The end flag was only on the slot before the new one, which was cleared.
    have hpred : k + 1 ≠ s.reached.length := by
      intro heq
      refine hlast ⟨rfl, ?_⟩
      rw [ring_pred h.pos k, heq, ← h.cnt, ← hcnt, ← hmax]
      rfl
    have hclear : (descAt s.chan (k % s.chan.maxDes0cnt)).ends = false :=
      Bool.eq_false_iff.mpr fun ht => hpred ((h.right.ends k hk (by omega)).mp ht)
    rw [← hclear]
  constructor
  · intro k hk hqueued
    rw [hmax'] at hqueued ⊢
    rw [hlen] at hk hqueued ⊢
    by_cases hkn : k = s.reached.length
    · subst hkn
      rw [hnew]
      simp
    · rw [hold k (by omega) hqueued]
      simp [hkn]
  intro k b hb hqueued
  dsimp only at hb hqueued ⊢
  rw [hmax'] at hqueued ⊢
  rw [hlen] at hqueued
  by_cases hkn : k < s.reached.length
  · rw [hold k hkn hqueued]
    rw [getElem?_append_left hkn] at hb
    exact h.right.inten k b hb (by omega)
  obtain ⟨hk, -⟩ := List.getElem?_eq_some_iff.mp hb
  obtain rfl : k = s.reached.length := by omega
  rw [getElem?_concat_length] at hb
  rw [hnew]
  exact Option.some.inj hb

lemma FlagsInv.after {call : AddCall} (h : FlagsInv s) (hfits : call.Fits s)
    (hok : 0 ≤ (call.run s.chan).1) : FlagsInv (s.after call) := by
  obtain ⟨hsize, hinten, hchunk⟩ := hfits
  obtain ⟨cfg, garbage, dmaPtr, size, residue⟩ := call
  unfold AddState.after
  unfold AddCall.run at hok ⊢
  dsimp only at hsize hinten hchunk hok ⊢
  have hcnt : ({ s.chan with residueDes0cnt := residue } : Chan).des0cnt < s.chan.maxDes0cnt := h.lt
  by_cases hzero : size = 0
  · subst hzero
    rw [addDescript_empty hcnt hok]
    have hnone : accumulate cfg.chunkSize s.accu s.last (parts 0) = ([], s.accu, s.last) := rfl
    rw [hnone, append_nil]
    exact ⟨h.pos, h.cnt, h.accu, h.small, h.right.ends, h.right.inten⟩
  have hpos := Nat.pos_of_ne_zero hzero
  obtain ⟨l, hround, hrun⟩ := addDescript_single hcnt hpos hsize hok
  have hx : xferOf size = size := Nat.min_eq_left hsize
  have hwadd : wadd s.chan.accuSize size = s.accu + s.last + size := by
    rw [h.accu]
    exact wadd_of_lt (by have := h.small; omega)
  have haccu := hround.accu
  dsimp only at haccu
  rw [hx, hwadd] at haccu
  -- The code and the specification decide in the same way.
  have hsame : s.accu + s.last + size ≥ cfg.chunkSize ↔ cfg.chunkSize ≤ s.accu + size := by
    refine ⟨fun hge => ?_, by omega⟩
    by_contra hlt
    have := (hinten hpos (by omega)).1
    omega
  have hint : decide
      (intenOf cfg ⟨{ s.chan with residueDes0cnt := residue }, garbage, dmaPtr, size, 0⟩ = 1) =
      decide (cfg.chunkSize ≤ s.accu + size) := by
    unfold intenOf
    rw [hx, hwadd, if_congr hsame rfl rfl]
    split
    · next hge => simp [hge]
    · next hlt => simp [hlt, (hinten hpos (not_le.mp hlt)).2]
  obtain ⟨accu, last, hflags, hsum⟩ : ∃ accu last,
      accumulate cfg.chunkSize s.accu s.last (parts size) =
        ([decide (cfg.chunkSize ≤ s.accu + size)], accu, last) ∧
      l.chan.accuSize = accu + last := by
    rw [parts_single hpos hsize, haccu, if_congr hsame rfl rfl]
    unfold accumulate
    split
    · next hge => exact ⟨0, size, by simp [hge, accumulate], (zero_add _).symm⟩
    · next hlt => exact ⟨s.accu + size, s.last, by simp [hlt, accumulate], Nat.add_right_comm _ _ _⟩
  have hend : endOf ⟨{ s.chan with residueDes0cnt := residue }, garbage, dmaPtr, size, 0⟩ = 1 := by
    unfold endOf
    rw [if_pos (by dsimp only; omega)]
  rw [hrun, hflags]
  refine ⟨?_, ?_, hsum, ?_, FlagsRight.round h (fun _ => rfl) rfl rfl hround hend hint⟩
  · rw [hround.same.max]
    exact h.pos
  · rw [hround.next, length_append, hround.same.max]
    show (s.chan.des0cnt + 1) % s.chan.maxDes0cnt = _
    rw [h.cnt, mod_add_mod]
    rfl
  · show accu + last + size32KB < wordSize
    rw [← hsum, haccu]
    have hroom : size32KB + size32KB < wordSize := by decide
    split <;> omega

/-- In the runs of fitting calls, the end flag is on the last descriptor only, and the interrupt
flags are where the chunk size is reached. -/
theorem flags_of_reach {s : AddState} (h : Reach AddInitial FittingAdd s) : FlagsRight s := by
  refine (h.invariant FlagsInv (fun _ h0 => flagsInv_of_initial h0) ?_).right
  rintro call s t hi ⟨⟨_, hok⟩, hfits⟩
  exact hi.after hfits hok

def newState : AddState := ⟨newChannel, [], 0, 0⟩

def callOf (chunkSize size : Nat) : AddCall := ⟨⟨7, chunkSize⟩, noAttr, 0x100000, size, 0⟩

lemma newState_reach : Reach AddInitial FittingAdd newState :=
  Reach.start ⟨7, ⟨7, 0x1000⟩, 0x2000, _, rfl⟩

def smallCalls : AddState :=
  ((newState.after (callOf 0x3000 0x1000)).after (callOf 0x3000 0x2000)).after (callOf 0x3000 0x800)

/-- Three calls of 4 KB, 8 KB and 2 KB. The second one reaches the chunk size of 12 KB. -/
theorem smallCalls_flags : smallCalls.reached = [false, true, false] ∧ FlagsRight smallCalls := by
  have hfirst : FittingAdd (callOf 0x3000 0x1000) newState _ :=
    ⟨AddStep.add _ (by decide +kernel), by decide, by decide, by decide⟩
  have hsecond : FittingAdd (callOf 0x3000 0x2000) (newState.after (callOf 0x3000 0x1000)) _ :=
    ⟨AddStep.add _ (by decide +kernel), by decide, by decide +kernel, by decide⟩
  have hthird : FittingAdd (callOf 0x3000 0x800) _ smallCalls :=
    ⟨AddStep.add _ (by decide +kernel), by decide, by decide +kernel, by decide⟩
  exact ⟨by decide +kernel,
    flags_of_reach (((newState_reach.next _ hfirst).next _ hsecond).next _ hthird)⟩

def twoParts : AddState := newState.after (callOf 0x1000 0x10000)

def twoCalls : AddState := (newState.after (callOf 0x2000 0x1000)).after (callOf 0x2000 0x1000)

def threeCalls : AddState := twoCalls.after (callOf 0x2000 0x1000)

/-- A call of 64 KB gives two descriptors with the end flag. Of three calls of 4 KB with a chunk
size of 8 KB, the last one gets the interrupt flag of the second one again. -/
theorem flags_wrong :
    (AddStep (callOf 0x1000 0x10000) newState twoParts ∧ twoParts.reached.length = 2 ∧
      (descAt twoParts.chan 0).ends = true ∧ ¬FlagsRight twoParts) ∧
    AddStep (callOf 0x2000 0x1000) twoCalls threeCalls ∧
      threeCalls.reached = [false, true, false] ∧ (descAt threeCalls.chan 2).inten = true ∧
      ¬FlagsRight threeCalls := by
  constructor
  · have hends : (descAt twoParts.chan 0).ends = true := by decide +kernel
    refine ⟨AddStep.add _ (by decide +kernel), by decide +kernel, hends, fun hright => ?_⟩
    have hlast := hright.ends 0 (by decide +kernel) (by decide +kernel)
    exact absurd (hlast.mp hends) (by decide +kernel)
  · have hreached : threeCalls.reached = [false, true, false] := by decide +kernel
    have hinten : (descAt threeCalls.chan 2).inten = true := by decide +kernel
    refine ⟨AddStep.add _ (by decide +kernel), hreached, hinten, fun hright => ?_⟩
    have hflag := hright.inten 2 false (by rw [hreached]; rfl) (by decide +kernel)
    rw [show threeCalls.chan.maxDes0cnt = 127 by decide +kernel] at hflag
    exact Bool.false_ne_true (hflag.symm.trans hinten)

/-! ### The count -/

/-- The count is the number of descriptors in the ring that are not finished, and they have room. -/
structure Counted (s : State) : Prop where
  pos : 0 < s.chan.maxDes0cnt
  cnt : s.chan.des0cnt = s.added % s.chan.maxDes0cnt
  le : s.finished ≤ s.added
  residue : s.chan.residueDes0cnt = s.added - s.finished
  room : s.added ≤ s.finished + s.chan.maxDes0cnt

section
variable {s t : State} {spans : List (Nat × Nat)} {c : Chan}

lemma Counted.lt (h : Counted s) : s.chan.des0cnt < s.chan.maxDes0cnt := by
  rw [h.cnt]
  exact mod_lt _ h.pos

lemma counted_of_initial (h : Initial s) : Counted s := by
  obtain ⟨device, cfg, phyAddr, des0, rfl⟩ := h
  exact ⟨succ_pos _, rfl, Nat.le_refl 0, rfl, Nat.zero_le _⟩

section
variable (h : Counted s) (hadds : Adds s.chan spans c)
  (hroom : spans.length ≤ s.chan.maxDes0cnt - s.chan.residueDes0cnt)
include h hadds hroom

lemma Counted.adds :
    Counted ⟨{ c with residueDes0cnt := c.residueDes0cnt + spans.length }, s.added + spans.length,
      s.finished⟩ := by
  have hres := h.residue
  have hle := h.le
  have hmax := hadds.same.max
  constructor
  · rw [hmax]
    exact h.pos
  · rw [hadds.next, hmax, h.cnt, mod_add_mod]
  · show s.finished ≤ s.added + spans.length
    omega
  · show c.residueDes0cnt + spans.length = ((s.added + spans.length : Nat) : Int) - s.finished
    rw [hadds.same.residue]
    omega
  · show s.added + spans.length ≤ s.finished + c.maxDes0cnt
    omega

lemma Counted.keeps {k : Nat} (hlo : s.finished ≤ k) (hhi : k < s.added) :
    body c (k % s.chan.maxDes0cnt) = body s.chan (k % s.chan.maxDes0cnt) := by
  have hres := h.residue
  obtain ⟨descs, hspan, hwrites⟩ := hadds.writes (by omega)
  have hlen : descs.length = spans.length := by rw [← hspan, length_map]
  have htouch := hwrites.touches
  rw [h.cnt] at htouch
  exact htouch.behind hhi (by omega)

end

/-! ### The calls -/

lemma Counted.addDescript_cases (h : Counted s) (garbage : Attr) (dmaPtr size : Nat)
    {r : Int × Chan} (hr : addDescript s.chan s.chan.deviceCfg garbage dmaPtr size = r) :
    (r.1 < 0 ∧ addedBy s.chan garbage dmaPtr size = 0 ∧ r.2 = s.chan) ∨
      ∃ spans : List (Nat × Nat), spans.length = needCount size ∧
        spans.length ≤ s.chan.maxDes0cnt - s.chan.residueDes0cnt ∧ r.1 = spans.length ∧
        addedBy s.chan garbage dmaPtr size = spans.length ∧ Adds s.chan spans r.2 := by
  subst hr
  rcases Dma.addDescript_cases s.chan s.chan.deviceCfg garbage dmaPtr size h.lt rfl with
    ⟨hneg, hsame⟩ | ⟨-, hroom, hret, hadds⟩
  · exact .inl ⟨hneg, Int.toNat_of_nonpos hneg.le, hsame⟩
  · have hlen := length_chunks dmaPtr size 0
    refine .inr ⟨_, hlen, by rwa [hlen], by rwa [hlen], ?_, hadds⟩
    unfold addedBy
    rw [hret, hlen, Int.toNat_natCast]

lemma Counted.started (h : Counted s) (garbage : Attr) (dmaPtr : Nat)
    (hfits : s.chan.residueDes0cnt + needCount size ≠ s.chan.maxDes0cnt) :
    Counted (s.started garbage dmaPtr size) := by
  unfold State.started wmtStartDma
  by_cases hsize : size = 0
  · rw [if_pos hsize, if_pos hsize]
    exact h
  rw [if_neg hsize, if_neg hsize]
  dsimp only
  rcases h.addDescript_cases garbage dmaPtr size rfl with
    ⟨hneg, hnone, hsame⟩ | ⟨spans, hlen, hroom, hret, hadded, hadds⟩
  · rw [if_pos hneg, hnone, hsame]
    exact h
  rw [hret, hadded, if_neg (by omega), if_neg]
  · exact h.adds hadds hroom
  · -- The clip is not reached: there is room, and the last slot stays free.
    rw [hadds.same.residue, hadds.same.max]
    omega

lemma Counted.started_keeps (h : Counted s) (garbage : Attr) (dmaPtr size : Nat) {k : Nat}
    (hlo : s.finished ≤ k) (hhi : k < s.added) :
    body (s.started garbage dmaPtr size).chan (k % s.chan.maxDes0cnt) =
      body s.chan (k % s.chan.maxDes0cnt) := by
  unfold State.started wmtStartDma
  by_cases hsize : size = 0
  · rw [if_pos hsize]
  rw [if_neg hsize]
  dsimp only
  rcases h.addDescript_cases garbage dmaPtr size rfl with
    ⟨hneg, -, hsame⟩ | ⟨spans, -, hroom, hret, -, hadds⟩
  · rw [if_pos hneg, hsame]
  · rw [hret]
    exact h.keeps hadds hroom hlo hhi

lemma wmtWakeDma_eq (c : Chan) (running : Bool) (garbage : Attr) (dmaPtr size : Nat) :
    (wmtWakeDma c running garbage dmaPtr size).2 =
      if WakeAdds c running size then
        let added := addDescript c c.deviceCfg garbage dmaPtr size
        { added.2 with residueDes0cnt := added.2.residueDes0cnt + added.1 }
      else c := by
  unfold wmtWakeDma
  by_cases hsize : size = 0
  · rw [if_pos hsize, if_neg fun hadds => hadds.2.1 hsize]
  rw [if_neg hsize]
  by_cases hchunk : size > c.deviceCfg.chunkSize
  · rw [if_pos hchunk, if_neg fun hadds => not_le.mpr hchunk hadds.2.2]
  rw [if_neg hchunk]
  cases running with
  | true => rw [if_pos rfl, if_pos ⟨rfl, hsize, not_lt.mp hchunk⟩]
  | false =>
    rw [if_neg (by decide), if_neg]
    rintro ⟨hrun, -⟩
    cases hrun

lemma Counted.woken (h : Counted s) (running : Bool) {garbage : Attr} {dmaPtr : Nat}
    (hfits : WakeAdds s.chan running size → badChan s.chan s.chan.deviceCfg = none ∧
      s.chan.residueDes0cnt + needCount size ≤ s.chan.maxDes0cnt) :
    Counted (s.woken running garbage dmaPtr size) := by
  unfold State.woken
  rw [wmtWakeDma_eq]
  by_cases hwake : WakeAdds s.chan running size
  · rw [if_pos hwake, if_pos hwake]
    rcases h.addDescript_cases garbage dmaPtr size rfl with
      ⟨hneg, -⟩ | ⟨spans, -, hroom, hret, hadded, hadds⟩
    · obtain ⟨hchan, hroom⟩ := hfits hwake
      obtain ⟨huse, hdev⟩ := badChan_eq_none.mp hchan
      have hret := (addDescript_of_room garbage dmaPtr ⟨huse, hdev, h.lt⟩
        (by omega : (needCount size : Int) ≤ _)).1
      omega
    · rw [hadded]
      dsimp only
      rw [hret]
      exact h.adds hadds hroom
  · rw [if_neg hwake, if_neg hwake]
    exact h

lemma Counted.woken_keeps (h : Counted s) (running : Bool) (garbage : Attr) (dmaPtr size : Nat)
    {k : Nat} (hlo : s.finished ≤ k) (hhi : k < s.added) :
    body (s.woken running garbage dmaPtr size).chan (k % s.chan.maxDes0cnt) =
      body s.chan (k % s.chan.maxDes0cnt) := by
  unfold State.woken
  rw [wmtWakeDma_eq]
  by_cases hwake : WakeAdds s.chan running size
  · rw [if_pos hwake]
    rcases h.addDescript_cases garbage dmaPtr size rfl with
      ⟨-, -, hsame⟩ | ⟨spans, -, hroom, hret, -, hadds⟩
    · dsimp only
      rw [hsame]
      rfl
    · exact h.keeps hadds hroom hlo hhi
  · rw [if_neg hwake]

lemma reviseDescript_eq (c : Chan) (cfg : Cfg) (offset : Nat) (reqCount dataAddress : BitVec 32) :
    ∃ des0, (reviseDescript c cfg offset reqCount dataAddress).2 = { c with des0 := des0 } := by
  unfold reviseDescript
  split
  · exact ⟨_, rfl⟩
  · dsimp only
    split
    · exact ⟨_, rfl⟩
    · exact ⟨_, rfl⟩

lemma Counted.finish (h : Counted s) {event : Event} (hevent : ¬event.IsError)
    (hleft : s.finished < s.added) :
    Counted { s with chan := dmaIrqHandler s.chan event, finished := s.finished + 1 } := by
  have hres := h.residue
  have hroom := h.room
  have hrun : ∃ des0, dmaIrqHandler s.chan event =
      { s.chan with des0 := des0, residueDes0cnt := s.chan.residueDes0cnt - 1 } := by
    unfold dmaIrqHandler
    cases event with
    | success =>
      dsimp only
      rw [if_pos (by omega)]
      exact ⟨_, rfl⟩
    | noStatus offset reqCount dataAddress =>
      obtain ⟨des0, hrevise⟩ :=
        reviseDescript_eq s.chan s.chan.deviceCfg offset reqCount dataAddress
      dsimp only
      rw [hrevise, if_pos (by dsimp only; omega)]
      exact ⟨_, rfl⟩
    | error => exact absurd trivial hevent
  obtain ⟨des0, hrun⟩ := hrun
  rw [hrun]
  refine ⟨h.pos, h.cnt, hleft, ?_, ?_⟩
  · show s.chan.residueDes0cnt - 1 = s.added - ((s.finished + 1 : Nat) : Int)
    omega
  · show s.added ≤ s.finished + 1 + s.chan.maxDes0cnt
    omega

lemma Counted.error (h : Counted s) {event : Event} (hevent : event.IsError) :
    Counted { s with chan := dmaIrqHandler s.chan event } := by
  cases event with
  | success => exact hevent.elim
  | noStatus => exact hevent.elim
  | error offset reqCount dataAddress =>
    obtain ⟨des0, hrevise⟩ := reviseDescript_eq s.chan s.chan.deviceCfg offset reqCount dataAddress
    unfold dmaIrqHandler
    dsimp only
    rw [hrevise]
    exact ⟨h.pos, h.cnt, h.le, h.residue, h.room⟩

lemma Counted.step {op : Op} (h : Counted s) (hstep : FittingStep op s t) : Counted t := by
  obtain ⟨hstep, hfits⟩ := hstep
  cases hstep with
  | start garbage dmaPtr size => exact h.started garbage dmaPtr hfits
  | wake running garbage dmaPtr size => exact h.woken running hfits
  | finish hevent hleft => exact h.finish hevent hleft
  | error hevent => exact h.error hevent

/-- In the runs with fitting calls, `residue_des0cnt` is the number of descriptors that are not
finished. No call writes over one of these, also if it does not fit. -/
theorem residue_of_reach (h : Reach Initial FittingStep s) :
    s.chan.residueDes0cnt = s.added - s.finished ∧
      ∀ op t, op.IsCall → Step op s t → ∀ k, s.finished ≤ k → k < s.added →
        body t.chan (k % s.chan.maxDes0cnt) = body s.chan (k % s.chan.maxDes0cnt) := by
  have hcounted := h.invariant Counted (fun _ h0 => counted_of_initial h0) (fun _ _ _ hi => hi.step)
  refine ⟨hcounted.residue, ?_⟩
  intro op t hcall hstep k hlo hhi
  cases hstep with
  | start garbage dmaPtr size => exact hcounted.started_keeps garbage dmaPtr size hlo hhi
  | wake running garbage dmaPtr size =>
    exact hcounted.woken_keeps running garbage dmaPtr size hlo hhi
  | finish hevent hleft => exact hcall.elim
  | error => exact hcall.elim

end

def emptyRing : State := ⟨newChannel, 0, 0⟩

lemma emptyRing_initial : Initial emptyRing := ⟨7, ⟨7, 0x1000⟩, 0x2000, _, rfl⟩

def twoStarted : State := emptyRing.started noAttr 0x100000 0x10000

def oneFinished : State :=
  { twoStarted with chan := dmaIrqHandler twoStarted.chan .success, finished := 1 }

def thenWoken : State := oneFinished.woken true noAttr 0x200000 0x1000

/-- A start of two descriptors, an interrupt, and a wake of one more. -/
theorem thenWoken_counts : thenWoken.added = 3 ∧ thenWoken.finished = 1 ∧
    thenWoken.chan.residueDes0cnt = thenWoken.added - thenWoken.finished := by
  have hempty : Reach Initial FittingStep emptyRing := Reach.start emptyRing_initial
  have hstarted : Reach Initial FittingStep twoStarted :=
    hempty.next _ ⟨Step.start noAttr 0x100000 0x10000,
      show (0 : Int) + needCount 0x10000 ≠ 127 by decide⟩
  have hfinished : Reach Initial FittingStep oneFinished :=
    hstarted.next (.irq .success) ⟨Step.finish id (by decide +kernel), trivial⟩
  have hwoken : Reach Initial FittingStep thenWoken :=
    hfinished.next _ ⟨Step.wake true noAttr 0x200000 0x1000, fun _ => by decide +kernel⟩
  exact ⟨by decide +kernel, rfl, (residue_of_reach hwoken).1⟩

def fullRing : State := emptyRing.started noAttr 0x100000 0x3F8000

/-- A start with 127 parts fills the ring, and one of them is not counted. The next part is written
to the slot of the first one, although none is finished. -/
theorem full_ring_overwritten :
    Reach Initial Step fullRing ∧ fullRing.chan.residueDes0cnt = 126 ∧ fullRing.added = 127 ∧
      fullRing.finished = 0 ∧ (body fullRing.chan 0).span = (0x100000, 0x8000) ∧
      (body (fullRing.started noAttr 0x900000 0x1000).chan 0).span = (0x900000, 0x1000) := by
  refine ⟨(Reach.start emptyRing_initial).next _ (Step.start noAttr 0x100000 0x3F8000), ?_⟩
  decide +kernel

end Wm8850.Dma
