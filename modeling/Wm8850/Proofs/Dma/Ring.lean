import Wm8850.Dma.Channel
import Wm8850.Lib.Ring

/-! # What `add_descript` writes

A round of `add_descript` writes one slot, and the first takes the end flag off the slot before
(`addStep_round`). The addresses in `chunks` are right for few sizes: the loop adds
`xfer_size * xfer_index` to the address of the round before, not to the start
(`covers_chunks_iff`). -/

namespace Wm8850.Dma

open Lib Function List Nat

structure Chan.Ready (c : Chan) (cfg : Cfg) : Prop where
  inUse : c.inUse = true
  device : c.deviceNo = cfg.deviceReqType
  lt : c.des0cnt < c.maxDes0cnt

variable {c c1 c2 c' : Chan} {cfg : Cfg} {size dmaPtr : Nat} {spans : List (Nat × Nat)}

lemma badChan_eq_none : badChan c cfg = none ↔ c.inUse = true ∧ c.deviceNo = cfg.deviceReqType := by
  unfold badChan
  split
  · next h => simp [h]
  · split
    · next h => simp [h]
    · next hin hdev => simpa using ⟨by simpa using hin, by simpa using hdev⟩

lemma badChan_neg {ret : Int} (h : badChan c cfg = some ret) : ret < 0 := by
  unfold badChan at h
  split at h
  · cases h
    decide
  · split at h
    · cases h
      decide
    · cases h

lemma Chan.Ready.ok (h : c.Ready cfg) : badChan c cfg = none :=
  badChan_eq_none.mpr ⟨h.inUse, h.device⟩

structure SameChan (c c' : Chan) : Prop where
  inUse : c'.inUse = c.inUse
  device : c'.deviceNo = c.deviceNo
  cfg : c'.deviceCfg = c.deviceCfg
  max : c'.maxDes0cnt = c.maxDes0cnt
  residue : c'.residueDes0cnt = c.residueDes0cnt

lemma SameChan.refl (c : Chan) : SameChan c c := ⟨rfl, rfl, rfl, rfl, rfl⟩

lemma SameChan.trans {c3 : Chan} (h1 : SameChan c1 c2) (h2 : SameChan c2 c3) : SameChan c1 c3 :=
  ⟨h2.inUse.trans h1.inUse, h2.device.trans h1.device, h2.cfg.trans h1.cfg, h2.max.trans h1.max,
    h2.residue.trans h1.residue⟩

/-! ### The words of a descriptor -/

lemma descWord {flags : BitVec 32} (hflags : flags &&& reqcntMask = 0#32)
    (hsize : size < size64KB) : ((flags ||| BitVec.ofNat 32 size) &&& reqcntMask).toNat = size ∧
      ∀ i, 16 ≤ i → (flags ||| BitVec.ofNat 32 size).getLsbD i = flags.getLsbD i := by
  have hlow : (BitVec.ofNat 32 size &&& reqcntMask).toNat = size := by
    unfold size64KB at hsize
    rw [BitVec.toNat_and, BitVec.toNat_ofNat, mod_eq_of_lt (by omega)]
    exact (and_two_pow_sub_one_eq_mod size 16).trans (mod_eq_of_lt hsize)
  constructor
  · have hdist : (flags ||| BitVec.ofNat 32 size) &&& reqcntMask =
        (flags &&& reqcntMask) ||| (BitVec.ofNat 32 size &&& reqcntMask) := by
      ext i
      simp [Bool.and_or_distrib_right]
    rw [hdist, hflags, BitVec.zero_or, hlow]
  intro i hi
  have hbit : (BitVec.ofNat 32 size).getLsbD i = false := by
    rw [BitVec.getLsbD_ofNat, testBit_lt_two_pow, Bool.and_false]
    calc size < size64KB := hsize
      _ = 2 ^ 16 := rfl
      _ ≤ 2 ^ i := Nat.pow_le_pow_right (by decide) hi
  rw [BitVec.getLsbD_or, hbit, Bool.or_false]

def fmt0Flags (attr : Attr) : BitVec 32 :=
  let reqCnt : BitVec 32 := if attr.interruptEn = 1 then intenDes else 0#32
  if attr.endDescript = 1 then reqCnt ||| desEnd else reqCnt

lemma fmt0Flags_spec (attr : Attr) (fmt1 : BitVec 32) (hfmt : fmt1 = 0#32 ∨ fmt1 = formatDes1) :
    (fmt0Flags attr ||| fmt1) &&& reqcntMask = 0#32 ∧
      (fmt0Flags attr ||| fmt1).getLsbD 29 = decide (attr.interruptEn = 1) ∧
      (fmt0Flags attr ||| fmt1).getLsbD 31 = decide (attr.endDescript = 1) := by
  unfold fmt0Flags
  by_cases hint : attr.interruptEn = 1 <;> by_cases hend : attr.endDescript = 1 <;>
    rcases hfmt with rfl | rfl <;> simp only [hint, hend] <;> decide

section
variable {c : Chan} {cfg : Cfg}

structure Writes (c : Chan) (d : Desc) (c' : Chan) : Prop where
  same : SameChan c c'
  next : c'.des0cnt = (c.des0cnt + 1) % c.maxDes0cnt
  accu : c'.accuSize = c.accuSize
  slot : descAt c' c.des0cnt = d
  others : ∀ slot < c.maxDes0cnt, slot ≠ c.des0cnt → descAt c' slot = descAt c slot

lemma descAt_update (attr : Attr) {des0 : Nat → BitVec 32}
    (hdes0 : ∀ slot < c.maxDes0cnt, slot ≠ c.des0cnt →
      des0 (slot * 2) = c.des0 (slot * 2) ∧ des0 (slot * 2 + 1) = c.des0 (slot * 2 + 1))
    (hslot : des0 (c.des0cnt * 2) =
      fmt0Flags attr ||| (if attr.fmt = 1 then formatDes1 else 0#32) |||
      BitVec.ofNat 32 attr.size) (haddr : des0 (c.des0cnt * 2 + 1) = BitVec.ofNat 32 attr.dataAddr)
    (hsize : attr.size < size64KB) {cnt : Nat} (hcnt : cnt = (c.des0cnt + 1) % c.maxDes0cnt) :
    Writes c ⟨attr.dataAddr % wordSize, attr.size, decide (attr.interruptEn = 1),
      decide (attr.endDescript = 1)⟩ { c with des0 := des0, des0cnt := cnt } := by
  have hfmt : (if attr.fmt = 1 then formatDes1 else 0#32) = 0#32 ∨
      (if attr.fmt = 1 then formatDes1 else 0#32) = formatDes1 := by
    split
    · exact .inr rfl
    · exact .inl rfl
  obtain ⟨hmask, hint, hend⟩ := fmt0Flags_spec attr _ hfmt
  obtain ⟨hcount, hbits⟩ := descWord hmask hsize
  refine ⟨⟨rfl, rfl, rfl, rfl, rfl⟩, hcnt, rfl, ?_, ?_⟩
  · unfold descAt
    dsimp only
    rw [hslot, haddr, hcount, hbits 29 (by decide), hbits 31 (by decide), hint, hend]
    rfl
  intro slot hlt hne
  obtain ⟨hword, hnext⟩ := hdes0 slot hlt hne
  unfold descAt
  dsimp only
  rw [hword, hnext]

lemma createDescript_spec (attr : Attr) (h : c.Ready cfg) (hsize : attr.size < size64KB) :
    Writes c ⟨attr.dataAddr % wordSize, attr.size, decide (attr.interruptEn = 1),
        decide (attr.endDescript = 1)⟩ (createDescript c cfg attr).2 := by
  have hlt := h.lt
  have hfits : ¬ attr.size > size64KB - 1 := by
    unfold size64KB at hsize ⊢
    omega
  unfold createDescript
  split
  · next hplace =>
    unfold createFmt0Descript
    rw [h.ok]
    dsimp only
    rw [if_neg hfits]
    refine descAt_update { attr with fmt := 0 } ?_ ?_ ?_ hsize ?_
    · intro slot _ hne
      rw [update_of_ne (by omega), update_of_ne (by omega),
        update_of_ne (by omega), update_of_ne (by omega)]
      exact ⟨rfl, rfl⟩
    · rw [update_of_ne (by omega), update_self]
      show _ = fmt0Flags _ ||| 0#32 ||| _
      rw [BitVec.or_zero]
      rfl
    · rw [update_self]
    · rw [mod_eq_of_lt (by omega)]
  next hplace =>
  have hlast : c.des0cnt = c.maxDes0cnt - 1 := by omega
  unfold createFmt1Descript
  rw [h.ok]
  dsimp only
  rw [if_neg hfits, ← hlast]
  refine descAt_update { attr with branchAddr := c.des0PhyAddr, fmt := 1 } ?_ ?_ ?_ hsize ?_
  · -- The third word is behind the ring.
    intro slot hslot hne
    rw [update_of_ne (by omega), update_of_ne (by omega),
      update_of_ne (by omega), update_of_ne (by omega),
      update_of_ne (by omega), update_of_ne (by omega)]
    exact ⟨rfl, rfl⟩
  · rw [update_of_ne (by omega), update_of_ne (by omega), update_self]
    rfl
  · rw [update_of_ne (by omega), update_self]
  · rw [show c.des0cnt + 1 = c.maxDes0cnt by omega, mod_self]

def Chan.last (c : Chan) : Nat := if 0 < c.des0cnt then c.des0cnt - 1 else c.maxDes0cnt - 1

lemma clearLastDescript_spec (h : c.Ready cfg) : SameChan c (clearLastDescript c cfg).2 ∧
      (clearLastDescript c cfg).2.des0cnt = c.des0cnt ∧ (clearLastDescript c cfg).2.accuSize =
        c.accuSize ∧
      ∀ slot, descAt (clearLastDescript c cfg).2 slot =
        if slot = c.last then { descAt c slot with ends := false } else descAt c slot := by
  have hrun : (clearLastDescript c cfg).2 =
      { c with des0 := update c.des0 (c.last * 2) (c.des0 (c.last * 2) &&& ~~~desEnd) } := by
    unfold clearLastDescript
    rw [h.ok]
    unfold Chan.last
    split <;> rfl
  rw [hrun]
  refine ⟨⟨rfl, rfl, rfl, rfl, rfl⟩, rfl, rfl, ?_⟩
  intro slot
  split
  · next heq =>
    subst heq
    unfold descAt
    dsimp only
    rw [update_of_ne (by omega), update_self]
    generalize c.des0 (c.last * 2) = w
    have hmask : w &&& ~~~desEnd &&& reqcntMask = w &&& reqcntMask := by
      rw [BitVec.and_assoc]
      rfl
    have hint : (w &&& ~~~desEnd).getLsbD 29 = w.getLsbD 29 := by
      rw [BitVec.getLsbD_and, show (~~~desEnd).getLsbD 29 = true by decide, Bool.and_true]
    have hend : (w &&& ~~~desEnd).getLsbD 31 = false := by
      rw [BitVec.getLsbD_and, show (~~~desEnd).getLsbD 31 = false by decide, Bool.and_false]
    rw [hmask, hint, hend]
  · next hne =>
    unfold descAt
    dsimp only
    rw [update_of_ne (by omega), update_of_ne (by omega)]

end

/-! ### The loop -/

def xferOf (residueSize : Nat) : Nat := min residueSize size32KB

section
variable {cfg : Cfg} {size : Nat} {l : AddLoop}

/-- The end flag of a new descriptor: from the last two rounds on. -/
def endOf (l : AddLoop) : Nat :=
  if l.residueSize - size32KB ≤ size32KB then 1 else l.attr.endDescript

def intenOf (cfg : Cfg) (l : AddLoop) : Nat :=
  if wadd l.chan.accuSize (xferOf l.residueSize) ≥ cfg.chunkSize then 1 else l.attr.interruptEn

structure Round (cfg : Cfg) (size : Nat) (l l' : AddLoop) : Prop where
  same : SameChan l.chan l'.chan
  next : l'.chan.des0cnt = (l.chan.des0cnt + 1) % l.chan.maxDes0cnt
  accu : l'.chan.accuSize = if wadd l.chan.accuSize (xferOf l.residueSize) ≥ cfg.chunkSize
    then xferOf l.residueSize else wadd l.chan.accuSize (xferOf l.residueSize)
  dmaPtr : l'.dmaPtr = wadd l.dmaPtr (xferOf l.residueSize * l.xferIndex)
  slot : descAt l'.chan l.chan.des0cnt = ⟨wadd l.dmaPtr (xferOf l.residueSize * l.xferIndex),
    xferOf l.residueSize, decide (intenOf cfg l = 1), decide (endOf l = 1)⟩
  others : ∀ slot < l.chan.maxDes0cnt, slot ≠ l.chan.des0cnt → descAt l'.chan slot =
    if l.residueSize = size ∧ slot = l.chan.last then { descAt l.chan slot with ends := false }
    else descAt l.chan slot

lemma addStep_round (size : Nat) (h : l.chan.Ready cfg) :
    Round cfg size l (addStep cfg size l) := by
  -- The channel after `clear_last_descript`.
  obtain ⟨c, hc⟩ : ∃ c, c = if l.residueSize = size then (clearLastDescript l.chan cfg).2
    else l.chan := ⟨_, rfl⟩
  have hclear : SameChan l.chan c ∧ c.des0cnt = l.chan.des0cnt ∧ c.accuSize = l.chan.accuSize ∧
      ∀ slot, descAt c slot = if l.residueSize = size ∧ slot = l.chan.last then
        { descAt l.chan slot with ends := false } else descAt l.chan slot := by
    rw [hc]
    by_cases hfirst : l.residueSize = size
    · rw [if_pos hfirst]
      obtain ⟨hsame, hcnt, haccu, hdesc⟩ := clearLastDescript_spec h
      refine ⟨hsame, hcnt, haccu, fun slot => ?_⟩
      rw [hdesc slot]
      simp [hfirst]
    · rw [if_neg hfirst]
      refine ⟨SameChan.refl _, rfl, rfl, fun slot => ?_⟩
      rw [if_neg fun hand => hfirst hand.1]
  obtain ⟨hsame, hcnt, haccu, hdesc⟩ := hclear
  have hxfer : (if l.residueSize > size32KB then size32KB else l.residueSize) =
      xferOf l.residueSize := by
    unfold xferOf
    split <;> omega
  have hresidue : (if l.residueSize > size32KB then l.residueSize - size32KB else 0) =
      l.residueSize - size32KB := by
    split <;> omega
  have hrun : addStep cfg size l =
      let accuSize := wadd c.accuSize (xferOf l.residueSize)
      let dmaPtr := wadd l.dmaPtr (xferOf l.residueSize * l.xferIndex)
      let created := createDescript
        { c with
          accuSize := if accuSize ≥ cfg.chunkSize then xferOf l.residueSize else accuSize } cfg
        (nextAttr cfg l.attr (l.residueSize - size32KB) accuSize dmaPtr (xferOf l.residueSize))
      ⟨created.2, created.1, dmaPtr, l.residueSize - size32KB, l.xferIndex + 1⟩ := by
    unfold addStep
    rw [hxfer, hresidue, ← hc]
  obtain ⟨accu, haccu'⟩ : ∃ accu, accu = if wadd c.accuSize (xferOf l.residueSize) ≥ cfg.chunkSize
    then xferOf l.residueSize else wadd c.accuSize (xferOf l.residueSize) := ⟨_, rfl⟩
  dsimp only at hrun
  rw [← haccu'] at hrun
  have hready : Chan.Ready { c with accuSize := accu } cfg := by
    refine ⟨hsame.inUse.trans h.inUse, hsame.device.trans h.device, ?_⟩
    rw [hcnt, hsame.max]
    exact h.lt
  have hsize : xferOf l.residueSize < size64KB := by
    unfold xferOf size32KB size64KB
    omega
  have hwrites := createDescript_spec
    (nextAttr cfg l.attr (l.residueSize - size32KB) (wadd c.accuSize (xferOf l.residueSize))
      (wadd l.dmaPtr (xferOf l.residueSize * l.xferIndex)) (xferOf l.residueSize)) hready hsize
  generalize createDescript { c with accuSize := accu } cfg _ = created at hwrites hrun
  obtain ⟨hsame', hnext, haccu'', hslot, hothers⟩ := hwrites
  have hboth : SameChan l.chan created.2 := by
    refine hsame.trans ⟨hsame'.inUse, hsame'.device, hsame'.cfg, hsame'.max, hsame'.residue⟩
  rw [hrun]
  rw [hcnt, hsame.max] at hnext
  rw [hcnt] at hslot
  refine ⟨hboth, hnext, ?_, rfl, ?_, ?_⟩
  · rw [haccu'', haccu', haccu]
  · rw [haccu] at hslot
    generalize hattr : nextAttr cfg l.attr _ _ _ _ = attr at hslot
    have haddr : attr.dataAddr % wordSize = wadd l.dmaPtr (xferOf l.residueSize * l.xferIndex) := by
      rw [← hattr]
      exact mod_mod _ _
    have hint : attr.interruptEn = intenOf cfg l := by
      rw [← hattr]
      rfl
    have hend : attr.endDescript = endOf l := by
      rw [← hattr, nextAttr, endOf]
    have hcount : attr.size = xferOf l.residueSize := by
      rw [← hattr]
      rfl
    rw [hslot, haddr, hint, hend, hcount]
  · intro slot hlt hne
    rw [hothers slot (by rwa [hsame.max]) (by rwa [hcnt])]
    exact hdesc slot

/-- A slot without its end flag. The flag of the last slot is the only thing that changes outside of
the slots that are written. -/
def body (c : Chan) (slot : Nat) : Desc := { descAt c slot with ends := false }

/-- What a descriptor transfers. -/
def Desc.span (d : Desc) : Nat × Nat := (d.addr, d.count)

structure Adds (c : Chan) (spans : List (Nat × Nat)) (c' : Chan) : Prop where
  same : SameChan c c'
  next : c'.des0cnt = (c.des0cnt + spans.length) % c.maxDes0cnt
  writes : spans.length ≤ c.maxDes0cnt → ∃ descs : List Desc, descs.map Desc.span = spans ∧
    RingWrites (body c) c.maxDes0cnt c.des0cnt descs (body c')

lemma Adds.nil (h : c.des0cnt < c.maxDes0cnt) : Adds c [] c :=
  ⟨SameChan.refl c, (mod_eq_of_lt h).symm, fun _ => ⟨[], rfl, RingWrites.nil⟩⟩

lemma Adds.append {xs ys : List (Nat × Nat)} (h1 : Adds c xs c1)
    (h2 : Adds c1 ys c2) : Adds c (xs ++ ys) c2 := by
  refine ⟨h1.same.trans h2.same, ?_, ?_⟩
  · rw [h2.next, h1.next, h1.same.max, ring_shift, length_append]
  intro hlen
  rw [length_append] at hlen
  obtain ⟨ds1, hspan1, hw1⟩ := h1.writes (by omega)
  obtain ⟨ds2, hspan2, hw2⟩ := h2.writes (by rw [h1.same.max]; omega)
  have hlen1 : ds1.length = xs.length := by rw [← hspan1, length_map]
  have hlen2 : ds2.length = ys.length := by rw [← hspan2, length_map]
  refine ⟨ds1 ++ ds2, by rw [map_append, hspan1, hspan2], hw1.append ?_ (by omega)⟩
  rwa [h1.same.max, h1.next, ← hlen1] at hw2

lemma Adds.ready (h : Adds c spans c') (hc : c.Ready cfg) : c'.Ready cfg := by
  refine ⟨h.same.inUse.trans hc.inUse, h.same.device.trans hc.device, ?_⟩
  rw [h.next, h.same.max]
  exact mod_lt _ (zero_lt_of_lt hc.lt)

lemma addStep_adds (size : Nat) (h : l.chan.Ready cfg) :
    Adds l.chan [(wadd l.dmaPtr (xferOf l.residueSize * l.xferIndex), xferOf l.residueSize)]
      (addStep cfg size l).chan := by
  have hround := addStep_round size h
  refine ⟨hround.same, hround.next,
    fun _ => ⟨[body (addStep cfg size l).chan l.chan.des0cnt], ?_, ?_, ?_⟩⟩
  · show [(descAt _ _).span] = _
    rw [hround.slot]
    rfl
  · intro i d hd
    obtain ⟨hi, rfl⟩ := List.getElem?_eq_some_iff.mp hd
    obtain rfl : i = 0 := by simpa using hi
    rw [add_zero, mod_eq_of_lt h.lt]
    rfl
  intro i hi hmax
  have hne : (l.chan.des0cnt + i) % l.chan.maxDes0cnt ≠ l.chan.des0cnt := by
    have hlt := h.lt
    rw [ring_index hlt hmax]
    simp only [length_cons] at hi
    split <;> omega
  unfold body
  rw [hround.others _ (mod_lt _ (zero_lt_of_lt h.lt)) hne]
  split <;> rfl

def chunks (dmaPtr residueSize xferIndex : Nat) : List (Nat × Nat) :=
  if 0 < residueSize then
    (wadd dmaPtr (xferOf residueSize * xferIndex), xferOf residueSize) ::
      chunks (wadd dmaPtr (xferOf residueSize * xferIndex)) (residueSize - size32KB) (xferIndex + 1)
  else []
termination_by residueSize
decreasing_by
  unfold size32KB
  omega

lemma needCount_pos (h : 0 < size) : needCount size = needCount (size - size32KB) + 1 := by
  unfold needCount size32KB
  split <;> split <;> omega

lemma length_chunks (dmaPtr residueSize xferIndex : Nat) :
    (chunks dmaPtr residueSize xferIndex).length = needCount residueSize := by
  fun_induction chunks dmaPtr residueSize xferIndex with
  | case1 ptr residue index hpos ih => rw [length_cons, ih, needCount_pos hpos]
  | case2 ptr residue index hzero =>
    obtain rfl : residue = 0 := by omega
    rfl

lemma addLoop_spec (cfg : Cfg) (size : Nat) (l : AddLoop) (h : l.chan.Ready cfg) :
    Adds l.chan (chunks l.dmaPtr l.residueSize l.xferIndex) (addLoop cfg size l).chan ∧
      (addLoop cfg size l).xferIndex = l.xferIndex + needCount l.residueSize := by
  fun_induction addLoop cfg size l with
  | case1 l hpos ih =>
    have hstep := addStep_adds size h
    obtain ⟨hrest, hindex⟩ := ih (hstep.ready h)
    have hptr := (addStep_round size h).dmaPtr
    have hnext : (addStep cfg size l).xferIndex = l.xferIndex + 1 := rfl
    rw [residueSize_addStep] at hindex hrest
    rw [hptr] at hrest
    constructor
    · rw [chunks, if_pos hpos]
      exact hstep.append hrest
    · rw [needCount_pos hpos]
      omega
  | case2 l hzero =>
    obtain hresidue : l.residueSize = 0 := by omega
    rw [chunks, hresidue]
    exact ⟨Adds.nil h.lt, rfl⟩

/-! ### The call -/

section
variable {c : Chan} {garbage : Attr} {dmaPtr : Nat}

lemma addDescript_of_room (garbage : Attr) (dmaPtr : Nat) (h : c.Ready cfg)
    (hroom : needCount size ≤ c.maxDes0cnt - c.residueDes0cnt) :
    (addDescript c cfg garbage dmaPtr size).1 = needCount size ∧
      Adds c (chunks dmaPtr size 0) (addDescript c cfg garbage dmaPtr size).2 := by
  obtain ⟨hadds, hindex⟩ := addLoop_spec cfg size ⟨c, garbage, dmaPtr, size, 0⟩ h
  rw [zero_add] at hindex
  unfold addDescript
  rw [h.ok]
  dsimp only
  rw [if_neg (by omega), hindex]
  exact ⟨rfl, hadds⟩

lemma addDescript_cases (c : Chan) (cfg : Cfg) (garbage : Attr) (dmaPtr size : Nat)
    (hcnt : c.des0cnt < c.maxDes0cnt) {r : Int × Chan}
    (hr : addDescript c cfg garbage dmaPtr size = r) :
    (r.1 < 0 ∧ r.2 = c) ∨ (c.Ready cfg ∧ needCount size ≤ c.maxDes0cnt - c.residueDes0cnt ∧
        r.1 = needCount size ∧ Adds c (chunks dmaPtr size 0) r.2) := by
  subst hr
  by_cases hroom : needCount size ≤ c.maxDes0cnt - c.residueDes0cnt
  · cases hok : badChan c cfg with
    | some ret =>
      left
      unfold addDescript
      rw [hok]
      exact ⟨badChan_neg hok, rfl⟩
    | none =>
      obtain ⟨huse, hdev⟩ := badChan_eq_none.mp hok
      have hready : c.Ready cfg := ⟨huse, hdev, hcnt⟩
      exact .inr ⟨hready, hroom, addDescript_of_room garbage dmaPtr hready hroom⟩
  left
  unfold addDescript
  split
  · next ret hret => exact ⟨badChan_neg hret, rfl⟩
  · rw [if_pos (by omega)]
    exact ⟨show - EBUSY < 0 by decide, rfl⟩

lemma addDescript_accepted (hcnt : c.des0cnt < c.maxDes0cnt)
    (hok : 0 ≤ (addDescript c cfg garbage dmaPtr size).1) :
    c.Ready cfg ∧ needCount size ≤ c.maxDes0cnt - c.residueDes0cnt ∧
      (addDescript c cfg garbage dmaPtr size).1 = needCount size ∧
      Adds c (chunks dmaPtr size 0) (addDescript c cfg garbage dmaPtr size).2 := by
  rcases addDescript_cases c cfg garbage dmaPtr size hcnt rfl with ⟨hneg, -⟩ | hadded
  · omega
  · exact hadded

/-- What `n` descriptors of the ring transfer. -/
def spansFrom (c : Chan) (start n : Nat) : List (Nat × Nat) :=
  (range n).map fun i => (descAt c ((start + i) % c.maxDes0cnt)).span

lemma Adds.spansFrom_eq (h : Adds c spans c')
    (hlen : spans.length ≤ c.maxDes0cnt) : spansFrom c' c.des0cnt spans.length = spans := by
  obtain ⟨descs, rfl, hwrites⟩ := h.writes hlen
  apply ext_getElem?
  intro i
  rw [spansFrom, h.same.max, length_map, getElem?_map, getElem?_map]
  by_cases hi : i < descs.length
  · rw [getElem?_range hi, getElem?_eq_getElem hi]
    have hslot := hwrites.holds i _ (getElem?_eq_getElem hi)
    rw [← hslot]
    rfl
  · rw [getElem?_eq_none (by simpa using hi), getElem?_eq_none (by simpa using hi)]
    rfl

end

/-! ### Coverage -/

/-- The parts lie one behind the other from `ptr` on, have `size` bytes together, and none has more
than 32 KB. -/
def Covers : Nat → Nat → List (Nat × Nat) → Prop
  | _, size, [] => size = 0
  | ptr, size, (addr, len) :: rest =>
    addr = ptr ∧ 0 < len ∧ len ≤ size32KB ∧ len ≤ size ∧
      Covers (wadd ptr len) (size - len) rest

lemma covers_chunks_step {ptr residueSize : Nat} (hpos : 0 < residueSize) (xferIndex : Nat) :
    Covers ptr residueSize (chunks dmaPtr residueSize xferIndex) ↔
      wadd dmaPtr (xferOf residueSize * xferIndex) = ptr ∧
        Covers (wadd ptr (xferOf residueSize)) (residueSize - size32KB)
          (chunks ptr (residueSize - size32KB) (xferIndex + 1)) := by
  have hx : 0 < xferOf residueSize ∧ xferOf residueSize ≤ size32KB ∧
      xferOf residueSize ≤ residueSize ∧
      residueSize - xferOf residueSize = residueSize - size32KB := by
    unfold xferOf size32KB
    omega
  obtain ⟨hxpos, hle, hle', hsub⟩ := hx
  rw [chunks, if_pos hpos, Covers, hsub]
  constructor
  · rintro ⟨rfl, -, -, -, hrest⟩
    exact ⟨rfl, hrest⟩
  · rintro ⟨rfl, hrest⟩
    exact ⟨rfl, hxpos, hle, hle', hrest⟩

lemma covers_chunks_zero (ptr dmaPtr xferIndex : Nat) :
    Covers ptr 0 (chunks dmaPtr 0 xferIndex) := by
  rw [chunks]
  rfl

/-- The sizes for which the sums of the loop are the addresses of the parts. -/
lemma covers_chunks_iff (hptr : dmaPtr < wordSize) (hsize : size < wordSize) :
    Covers dmaPtr size (chunks dmaPtr size 0) ↔ size ≤ size32KB ∨ size = size64KB ∨
      size = 0x14000 := by
  have hfirst : ∀ x, wadd dmaPtr (x * 0) = dmaPtr := fun x => mod_eq_of_lt hptr
  have hend : ∀ {n}, n ≤ size32KB → n - size32KB = 0 := fun h => Nat.sub_eq_zero_of_le h
  by_cases h0 : size = 0
  · subst h0
    exact iff_of_true (covers_chunks_zero _ _ _) (.inl (Nat.zero_le _))
  rw [covers_chunks_step (by omega), iff_true_intro (hfirst _), true_and]
  by_cases h1 : size ≤ size32KB
  · rw [hend h1]
    exact iff_of_true (covers_chunks_zero _ _ _) (.inl h1)
  -- The second round is right if it has 32 KB.
  rw [covers_chunks_step (by omega)]
  by_cases h2 : size - size32KB ≤ size32KB
  · rw [hend h2, iff_true_intro (covers_chunks_zero _ _ _), and_true]
    unfold xferOf wadd wordSize size32KB size64KB at *
    omega
  rw [covers_chunks_step (by omega)]
  by_cases h3 : size - size32KB - size32KB ≤ size32KB
  · -- The third round is 32 KB further only if it has 16 KB, which are counted twice.
    rw [hend h3, iff_true_intro (covers_chunks_zero _ _ _), and_true]
    unfold xferOf wadd wordSize size32KB size64KB at *
    omega
  · unfold xferOf wadd wordSize size32KB size64KB at *
    omega

/-- The descriptors of an accepted call cover the buffer if and only if it has at most 32 KB, 64 KB
or 80 KB. -/
theorem addDescript_covers {c : Chan} {garbage : Attr} {dmaPtr : Nat}
    (hcnt : c.des0cnt < c.maxDes0cnt) (hmax : needCount size ≤ c.maxDes0cnt)
    (hptr : dmaPtr < wordSize) (hsize : size < wordSize)
    (hok : 0 ≤ (addDescript c cfg garbage dmaPtr size).1) :
    Covers dmaPtr size (spansFrom (addDescript c cfg garbage dmaPtr size).2 c.des0cnt
      (addDescript c cfg garbage dmaPtr size).1.toNat) ↔
      size ≤ size32KB ∨ size = size64KB ∨ size = 0x14000 := by
  obtain ⟨-, -, hret, hadds⟩ := addDescript_accepted hcnt hok
  have hlen := length_chunks dmaPtr size 0
  have hspans := hadds.spansFrom_eq (by rwa [hlen])
  rw [hlen] at hspans
  rw [hret, Int.toNat_natCast, hspans, covers_chunks_iff hptr hsize]

def newChannel : Chan := wmtRequestDma 7 ⟨7, 0x1000⟩ 0x2000 fun _ => 0#32

def noAttr : Attr := ⟨0, 0, 0, 0, 0, 0⟩

lemma newChannel_ready : newChannel.Ready newChannel.deviceCfg := ⟨rfl, rfl, by decide⟩

theorem newChannel_covers : Covers 0x100000 0x10000 (spansFrom
      (addDescript newChannel newChannel.deviceCfg noAttr 0x100000 0x10000).2 newChannel.des0cnt
      (addDescript newChannel newChannel.deviceCfg noAttr 0x100000 0x10000).1.toNat) :=
  (addDescript_covers newChannel_ready.lt (by decide) (by decide) (by decide)
    (by decide +kernel)).mpr (.inr (.inl rfl))

/-- A buffer of 40 KB. The second descriptor starts 8 KB behind the first one, inside of its
part. -/
theorem second_part_misplaced :
    (addDescript newChannel newChannel.deviceCfg noAttr 0x100000 0xA000).1 = 2 ∧
      spansFrom (addDescript newChannel newChannel.deviceCfg noAttr 0x100000 0xA000).2
        newChannel.des0cnt 2 = [(0x100000, 0x8000), (0x102000, 0x2000)] ∧
      ¬ Covers 0x100000 0xA000 (spansFrom
        (addDescript newChannel newChannel.deviceCfg noAttr 0x100000 0xA000).2 newChannel.des0cnt
        (addDescript newChannel newChannel.deviceCfg noAttr 0x100000 0xA000).1.toNat) := by
  have hret : (addDescript newChannel newChannel.deviceCfg noAttr 0x100000 0xA000).1 = 2 := by
    decide +kernel
  have hspans : spansFrom (addDescript newChannel newChannel.deviceCfg noAttr 0x100000 0xA000).2
      newChannel.des0cnt 2 = [(0x100000, 0x8000), (0x102000, 0x2000)] := by decide +kernel
  refine ⟨hret, hspans, ?_⟩
  rw [hret]
  intro hcovers
  have hsecond := (hspans ▸ hcovers).2.2.2.2.1
  exact absurd hsecond (by decide)

end

end Wm8850.Dma
