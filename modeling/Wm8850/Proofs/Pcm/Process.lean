import Wm8850.Proofs.Pcm.Samples
import Wm8850.Proofs.Pcm.Wfd

/-! # Each period is queued once, as two channels of 16 bits

Of the formats that the driver converts, each period goes through one branch of `audio_process_dma`,
which queues it from `dump_buf`. A single channel of 16 bits is accepted by both chains of
conditions and queued twice, and a period of more than 16 KB is cut. -/

namespace Wm8850.Pcm

open Lib List Nat

variable {rt : Runtime} {m : Mem} {p n : Nat}

/-! ### The bytes of a period -/

lemma range_pairs {α : Type} (f : Nat → α) (n : Nat) :
    (range (2 * n)).map f = (range n).flatMap fun k => [f (2 * k), f (2 * k + 1)] := by
  induction n with
  | zero => rfl
  | succ n ih =>
    rw [mul_succ, range_succ, range_succ, range_succ, map_append, map_append, ih]
    simp

lemma wmtSwU2s_of_ne {fmt : Format} (h : fmt ≠ .u8) (m : Mem) (p n : Nat) :
    wmtSwU2s fmt m p n = m :=
  funext fun _ => if_neg fun hu => h hu.1

/-- The floats of the period fit into 16 bits. -/
def FloatsFit (rt : Runtime) (m : Mem) (p n : Nat) : Prop :=
  rt.format = .float → ∀ k < n * rt.channels, FloatFits (word m (p + 4 * k))

/-- The conversion gives the samples of the period, exactly if the floats fit. -/
lemma wmtPcmFmtTrans_iff (hch : rt.channels = 1 ∨ rt.channels = 2) (hfmt : rt.format ≠ .s16Le) :
    wmtPcmFmtTrans rt.format rt.channels (wmtSwU2s rt.format m p (framesToBytes rt n)) p
      (framesToBytes rt n) = stereoBytes rt m p n ↔ FloatsFit rt m p n := by
  obtain ⟨fmt, channels, _, _⟩ := rt
  unfold stereoBytes framesToBytes FloatsFit
  dsimp only at hch hfmt ⊢
  cases fmt with
  | s16Le => exact absurd rfl hfmt
  | u8 =>
    refine iff_of_true ?_ fun h => nomatch h
    have hcount : n * (Format.width .u8 * channels) = n * channels := by rw [Format.width, one_mul]
    have hbyte : ∀ k ∈ range (n * channels),
        (wmtSwU2s .u8 m p (n * channels) (p + k)).setWidth 16 <<< 8 =
          BitVec.ofInt 16 (sampleAt .u8 m (p + 1 * k)) := fun k hk => by
      have hk := mem_range.mp hk
      rw [wmtSwU2s, if_pos ⟨rfl, by omega, by omega⟩, signed_eq, one_mul]
      rfl
    unfold wmtPcmFmtTrans
    rw [hcount]
    rcases hch with rfl | rfl
    · refine flatMap_congr fun k hk => ?_
      dsimp only
      rw [shiftLeft_pair, wordBytes_dup, hbyte k hk]
      rfl
    · refine flatMap_congr fun k hk => ?_
      rw [hbyte k hk]
      rfl
  | float =>
    have hcount : n * (Format.width .float * channels) = 4 * (n * channels) := by
      rw [Format.width, mul_left_comm]
    rw [wmtSwU2s_of_ne (by decide), hcount]
    simp only [true_imp_iff]
    exact wmtPcmFmtTrans_float_iff hch

lemma length_wmtPcmFmtTrans (hch : rt.channels = 1 ∨ rt.channels = 2) (hfmt : rt.format ≠ .s16Le) :
    (wmtPcmFmtTrans rt.format rt.channels m p (framesToBytes rt n)).length = 4 * n := by
  obtain ⟨fmt, channels, _, _⟩ := rt
  dsimp only at hch hfmt ⊢
  cases fmt with
  | s16Le => exact absurd rfl hfmt
  | u8 =>
    rcases hch with rfl | rfl
    · refine (length_flatMap_range (c := 4) (fun k => rfl) _).trans ?_
      simp only [framesToBytes, Format.width]
      omega
    · refine (length_flatMap_range (c := 2) (fun k => rfl) _).trans ?_
      simp only [framesToBytes, Format.width]
      omega
  | float =>
    rcases hch with rfl | rfl
    · refine (length_flatMap_range (c := 4) (fun k => rfl) _).trans ?_
      simp only [framesToBytes, Format.width]
      omega
    · refine (length_flatMap_range (c := 2) (fun k => rfl) _).trans ?_
      simp only [framesToBytes, Format.width]
      omega

lemma stereoBytes_s16 (hfmt : rt.format = .s16Le) (hch : rt.channels = 2) :
    ((range (4 * n)).map fun i => m (p + i)) = stereoBytes rt m p n := by
  unfold stereoBytes
  rw [hfmt, hch, show 4 * n = 2 * (n * 2) by omega, range_pairs]
  refine flatMap_congr fun k _ => ?_
  rw [sampleAt, BitVec.ofInt_toInt, halfBytes_half]
  rfl

lemma map_store (m : Mem) (a : Nat) (bs : List (BitVec 8)) :
    ((range bs.length).map fun i => store m a bs (a + i)) = bs := by
  refine ext_getElem (by simp) fun i _ hi => ?_
  rw [getElem_map, getElem_range, store_of_getElem? m a (getElem?_eq_getElem hi)]

/-! ### The queue -/

variable {ret : Transfer → Int} {s : Stream}

/-- The transfer of the current period, as two channels of 16 bits. -/
def periodTransfer (rt : Runtime) (s : Stream) (source : Source) : Transfer :=
  ⟨source, 4 * rt.periodSize * s.period, 4 * rt.periodSize⟩

/-- Two channels of 16 bits are played from where they are. -/
def Runtime.source (rt : Runtime) : Source := if rt.format = .s16Le then .pcm else .dump

/-- The call queues one transfer, the current period in 16 bits on two channels, and goes to the
next period. -/
def QueuesPeriod (rt : Runtime) (ret : Transfer → Int) (s : Stream) : Prop :=
  let s' := audioProcessDma rt ret true s
  s'.period = (s.period + 1) % rt.periods ∧
    ∃ source, let t := periodTransfer rt s source
      s'.queue = s.queue ++ [t] ∧ ((range t.size).map fun i => s'.mem source (t.addr + i)) =
        stereoBytes rt s.area (framesToBytes rt rt.periodSize * s.period) rt.periodSize

/-- How many bytes of two channels of 16 bits come from `size` bytes of the format. -/
def stereoSize (rt : Runtime) (size : Nat) : Nat := 4 * size / (rt.format.width * rt.channels)

/-- The size of a period that `audio_process_dma` takes. -/
def dmaSize (rt : Runtime) : Nat :=
  if maxDmaSize < framesToBytes rt rt.periodSize then cutDmaSize
  else framesToBytes rt rt.periodSize

lemma width_pos (hch : rt.channels = 1 ∨ rt.channels = 2) : 0 < rt.format.width * rt.channels := by
  refine Nat.mul_pos ?_ (by omega)
  cases rt.format <;> decide

lemma stereoSize_frames (hch : rt.channels = 1 ∨ rt.channels = 2) (n k : Nat) :
    stereoSize rt (framesToBytes rt n * k) = 4 * n * k := by
  have hcomm : 4 * (n * (rt.format.width * rt.channels) * k) =
      4 * n * k * (rt.format.width * rt.channels) := by
    rw [Nat.mul_right_comm n, ← Nat.mul_assoc 4, ← Nat.mul_assoc 4]
  rw [stereoSize, framesToBytes, hcomm]
  exact Nat.mul_div_cancel _ (width_pos hch)

/-- A period that is cut has another size. -/
lemma stereoSize_dmaSize_iff (hch : rt.channels = 1 ∨ rt.channels = 2) :
    stereoSize rt (dmaSize rt) = 4 * rt.periodSize ↔
      framesToBytes rt rt.periodSize ≤ maxDmaSize := by
  unfold dmaSize
  split
  next hcut =>
    refine iff_of_false (Nat.ne_of_lt ?_) (not_le.mpr hcut)
    rw [stereoSize, Nat.div_lt_iff_lt_mul (width_pos hch), Nat.mul_assoc]
    unfold framesToBytes maxDmaSize at hcut
    unfold cutDmaSize
    omega
  next hwhole =>
    refine iff_of_true ?_ (not_lt.mp hwhole)
    simpa using stereoSize_frames hch rt.periodSize 1

lemma playPeriod_eq (ret : Transfer → Int) (s : Stream) (hch : rt.channels = 1 ∨ rt.channels = 2)
    (hfmt : rt.format ≠ .s16Le) (offset size : Nat) :
    let area := wmtSwU2s rt.format s.area offset size
    let trans := wmtPcmFmtTrans rt.format rt.channels area offset size
    playPeriod rt ret s offset size = wmtStartDma ret
        { s with area, dump := store s.dump (stereoSize rt offset) trans }
        ⟨.dump, stereoSize rt offset, stereoSize rt size⟩ := by
  obtain ⟨fmt, channels, n, _⟩ := rt
  have hhalf : ∀ x, 4 * x / 2 = 2 * x := fun x => by omega
  have hquarter : ∀ x, 4 * x / 8 = x / 2 := fun x => by omega
  cases fmt with
  | s16Le => exact absurd rfl hfmt
  | u8 => rcases hch with rfl | rfl <;> simp [playPeriod, stereoSize, Format.width, hhalf]
  | float => rcases hch with rfl | rfl <;> simp [playPeriod, stereoSize, Format.width, hquarter]

/-- The transfer of the period as it is, from a stream that differs in the display's buffer only. -/
lemma rawPeriod_eq (ret : Transfer → Int) (hfmt : rt.format = .s16Le)
    (hch : rt.channels = 1 ∨ rt.channels = 2) (r : Int × Stream) (offset size : Nat) :
    ∃ s1 : Stream, (s1.queue = r.2.queue ∧ s1.period = r.2.period ∧ s1.area = r.2.area) ∧
      rawPeriod rt ret true r offset size = wmtStartDma ret s1 ⟨.pcm, offset, size⟩ := by
  have hraw : rt.channels = 2 ∧ rt.format = .s16Le ∨ rt.channels = 1 ∧ rt.format = .s16Le :=
    hch.symm.imp (fun h => ⟨h, hfmt⟩) fun h => ⟨h, hfmt⟩
  unfold rawPeriod
  rw [if_pos hraw]
  dsimp only
  split
  · exact ⟨{ r.2 with wfd := wmtPcmWfdUpdate r.2.wfd _ }, ⟨rfl, rfl, rfl⟩, rfl⟩
  · exact ⟨r.2, ⟨rfl, rfl, rfl⟩, rfl⟩

/-- The parts of a call that start transfers, one after the other. -/
def startPeriod (rt : Runtime) (ret : Transfer → Int) (s : Stream) : Int × Stream :=
  rawPeriod rt ret true (playPeriod rt ret s (dmaSize rt * s.period) (dmaSize rt))
    (dmaSize rt * s.period) (dmaSize rt)

lemma audioProcessDma_eq (hactive : s.active) :
    audioProcessDma rt ret true s =
      if (startPeriod rt ret s).1 ≠ 0 then (startPeriod rt ret s).2 else
        { (startPeriod rt ret s).2 with
          period := ((startPeriod rt ret s).2.period + 1) % rt.periods
          periods := (startPeriod rt ret s).2.periods + 1
          offset := dmaSize rt * s.period } := by
  unfold audioProcessDma
  rw [if_pos hactive]
  rfl

lemma period_ne (hperiods : 2 ≤ rt.periods) (s : Stream) :
    s.period ≠ (s.period + 1) % rt.periods := by
  intro hstay
  have hlt := Nat.mod_lt (s.period + 1) (show 0 < rt.periods by omega)
  rcases Nat.lt_or_ge (s.period + 1) rt.periods with hin | hout
  · rw [Nat.mod_eq_of_lt hin] at hstay
    omega
  · rw [show s.period + 1 = rt.periods by omega, Nat.mod_self] at hstay
    omega

/-- The two ends of a call that starts one transfer. -/
lemma queuesPeriod_iff (hactive : s.active) (hperiods : 2 ≤ rt.periods) {s1 : Stream}
    {t : Transfer} (hqueue : s1.queue = s.queue) (hperiod : s1.period = s.period)
    (hrun : startPeriod rt ret s = wmtStartDma ret s1 t) :
    QueuesPeriod rt ret s ↔ ret t = 0 ∧ t = periodTransfer rt s t.source ∧
      ((range t.size).map fun i => s1.mem t.source (t.addr + i)) =
        stereoBytes rt s.area (framesToBytes rt rt.periodSize * s.period) rt.periodSize := by
  unfold QueuesPeriod
  rw [audioProcessDma_eq hactive, hrun]
  unfold wmtStartDma
  by_cases hret : ret t = 0
  · simp only [hret, if_true, ne_eq, not_true_eq_false, if_false, hqueue, hperiod, true_and,
      append_cancel_left_eq, cons.injEq, and_true]
    constructor
    · rintro ⟨source, rfl, hbytes⟩
      refine ⟨rfl, ?_⟩
      cases source <;> exact hbytes
    · rintro ⟨hsource, hbytes⟩
      refine ⟨t.source, hsource, ?_⟩
      rw [← hsource]
      cases hsrc : t.source <;> rw [hsrc] at hbytes <;> exact hbytes
  · simp only [hret, if_false, ne_eq, not_false_eq_true, if_true, hperiod, false_and, iff_false,
      not_and]
    exact fun hstay => absurd hstay (period_ne hperiods s)

section
variable (hactive : s.active) (hch : rt.channels = 1 ∨ rt.channels = 2) (hperiods : 2 ≤ rt.periods)
include hactive hch hperiods

/-- A format that is converted. -/
lemma queuesPeriod_converted (hfmt : rt.format ≠ .s16Le) :
    QueuesPeriod rt ret s ↔ framesToBytes rt rt.periodSize ≤ maxDmaSize ∧
      FloatsFit rt s.area (framesToBytes rt rt.periodSize * s.period) rt.periodSize ∧
      ret (periodTransfer rt s .dump) = 0 := by
  have hplay := playPeriod_eq ret s hch hfmt (dmaSize rt * s.period) (dmaSize rt)
  have hrun : startPeriod rt ret s = _ := (if_neg (by simp [hfmt])).trans hplay
  rw [queuesPeriod_iff hactive hperiods (by rfl) (by rfl) hrun]
  by_cases hwhole : framesToBytes rt rt.periodSize ≤ maxDmaSize
  · have hd : dmaSize rt = framesToBytes rt rt.periodSize := if_neg (not_lt.mpr hwhole)
    have hsize : stereoSize rt (framesToBytes rt rt.periodSize) = 4 * rt.periodSize := by
      simpa using stereoSize_frames hch rt.periodSize 1
    simp only [hd, hsize, stereoSize_frames hch, hwhole, true_and]
    rw [← wmtPcmFmtTrans_iff hch hfmt]
    -- what is read back from `dump_buf` is what the conversion put there
    generalize htrans : wmtPcmFmtTrans rt.format rt.channels _ _ _ = trans
    have hread := map_store s.dump (4 * rt.periodSize * s.period) trans
    rw [← htrans, length_wmtPcmFmtTrans hch hfmt, htrans] at hread
    constructor
    · rintro ⟨hret, -, hbytes⟩
      exact ⟨hread.symm.trans hbytes, hret⟩
    · rintro ⟨hbytes, hret⟩
      exact ⟨hret, rfl, hread.trans hbytes⟩
  · refine iff_of_false ?_ fun h => hwhole h.1
    rintro ⟨-, ht, -⟩
    exact hwhole ((stereoSize_dmaSize_iff hch).mp (congrArg Transfer.size ht))

/-- Two channels of 16 bits, which are not converted. -/
lemma queuesPeriod_stereo (hfmt : rt.format = .s16Le) (htwo : rt.channels = 2) :
    QueuesPeriod rt ret s ↔ framesToBytes rt rt.periodSize ≤ maxDmaSize ∧
      ret (periodTransfer rt s .pcm) = 0 := by
  have hplay : ∀ offset size, playPeriod rt ret s offset size = (0, s) := by
    intro offset size
    unfold playPeriod
    rw [wmtSwU2s_of_ne (by rw [hfmt]; decide)]
    simp [hfmt, htwo]
  obtain ⟨s1, hs1, hraw⟩ := rawPeriod_eq ret hfmt hch (0, s) (dmaSize rt * s.period)
    (dmaSize rt)
  rw [← hplay, ← startPeriod] at hraw
  rw [queuesPeriod_iff hactive hperiods hs1.1 hs1.2.1 hraw]
  have hbytes : framesToBytes rt rt.periodSize = 4 * rt.periodSize := by
    rw [framesToBytes, hfmt, htwo, mul_comm, Format.width]
  by_cases hwhole : framesToBytes rt rt.periodSize ≤ maxDmaSize
  · have hd : dmaSize rt = 4 * rt.periodSize := (if_neg (not_lt.mpr hwhole)).trans hbytes
    have hread : ((range (4 * rt.periodSize)).map fun i =>
        s1.mem .pcm (4 * rt.periodSize * s.period + i)) =
        stereoBytes rt s.area (4 * rt.periodSize * s.period) rt.periodSize := by
      rw [← stereoBytes_s16 hfmt htwo]
      exact map_congr_left fun i _ => congrFun hs1.2.2 _
    simp only [hd, hbytes, hread, and_true]
    rw [hbytes] at hwhole
    exact ⟨fun h => ⟨hwhole, h.1⟩, fun h => ⟨h.2, rfl⟩⟩
  · refine iff_of_false ?_ fun h => hwhole h.1
    rintro ⟨-, ht, -⟩
    have hsize : dmaSize rt = 4 * rt.periodSize := congrArg Transfer.size ht
    rw [dmaSize, if_pos (not_le.mp hwhole)] at hsize
    rw [hbytes] at hwhole
    unfold maxDmaSize at hwhole
    unfold cutDmaSize at hsize
    omega

/-- One channel of 16 bits: the second transfer is never the right one, and without it the period
stays. -/
lemma not_queuesPeriod_mono (hframes : 0 < rt.periodSize) (hfmt : rt.format = .s16Le)
    (hone : rt.channels = 1) : ¬QueuesPeriod rt ret s := by
  have hplay : playPeriod rt ret s (dmaSize rt * s.period) (dmaSize rt) =
      wmtStartDma ret _ ⟨.dump, 2 * (dmaSize rt * s.period), 2 * dmaSize rt⟩ :=
    if_pos (.inl ⟨hone, hfmt⟩)
  generalize hr : wmtStartDma ret _ _ = r at hplay
  have hqueue : r.2.queue = s.queue ∨
      r.2.queue = s.queue ++ [⟨.dump, 2 * (dmaSize rt * s.period), 2 * dmaSize rt⟩] := by
    rw [← hr, wmtStartDma]
    dsimp only
    split
    · exact .inr rfl
    · exact .inl rfl
  have hperiod : r.2.period = s.period := by
    rw [← hr, wmtStartDma]
    dsimp only
    split <;> rfl
  obtain ⟨s1, hs1, hraw⟩ := rawPeriod_eq ret hfmt hch r (dmaSize rt * s.period) (dmaSize rt)
  rw [← hplay, ← startPeriod] at hraw
  rintro ⟨hnext, source, hone', -⟩
  rw [audioProcessDma_eq hactive, hraw] at hnext hone'
  unfold wmtStartDma at hnext hone'
  by_cases hret : ret ⟨.pcm, dmaSize rt * s.period, dmaSize rt⟩ = 0
  · simp only [hret, if_true, ne_eq, not_true_eq_false, if_false, hs1.1] at hone'
    rcases hqueue with hq | hq
    · -- only the second transfer, which is too short
      rw [hq, append_cancel_left_eq] at hone'
      have hsize : dmaSize rt = 4 * rt.periodSize :=
        congrArg Transfer.size (List.cons.inj hone').1
      rw [dmaSize, framesToBytes, hfmt, hone, Format.width] at hsize
      unfold maxDmaSize cutDmaSize at hsize
      split at hsize <;> omega
    · have hlen := congrArg length hone'
      rw [hq] at hlen
      simp at hlen
  · simp only [hret, if_false, ne_eq, not_false_eq_true, if_true, hs1.2.1, hperiod] at hnext
    exact period_ne hperiods s hnext

end

/-- A call on an active stream queues one transfer, the period in 16 bits on two channels, and goes
to the next period, exactly if the format is not one channel of 16 bits, the period is not cut, its
floats fit, and the DMA engine takes the transfer. A period has a frame, and there are two
periods. -/
theorem audioProcessDma_queues_iff (hactive : s.active) (hch : rt.channels = 1 ∨ rt.channels = 2)
    (hframes : 0 < rt.periodSize) (hperiods : 2 ≤ rt.periods) :
    QueuesPeriod rt ret s ↔ ¬(rt.channels = 1 ∧ rt.format = .s16Le) ∧
      framesToBytes rt rt.periodSize ≤ maxDmaSize ∧
      FloatsFit rt s.area (framesToBytes rt rt.periodSize * s.period) rt.periodSize ∧
      ret (periodTransfer rt s rt.source) = 0 := by
  unfold Runtime.source
  by_cases hfmt : rt.format = .s16Le
  · have hfit : FloatsFit rt s.area (framesToBytes rt rt.periodSize * s.period) rt.periodSize :=
      fun hfloat => by rw [hfmt] at hfloat; cases hfloat
    rcases hch with hone | htwo
    · exact iff_of_false (not_queuesPeriod_mono hactive (.inl hone) hperiods hframes hfmt hone)
        fun h => h.1 ⟨hone, hfmt⟩
    · rw [queuesPeriod_stereo hactive (.inr htwo) hperiods hfmt htwo, if_pos hfmt]
      simp [htwo, hfit]
  · rw [queuesPeriod_converted hactive hch hperiods hfmt, if_neg hfmt]
    simp [hfmt]

/-- A stream in its second period, with the bytes 127, 128 and so on. -/
def smallStream : Stream :=
  ⟨true, 1, 0, 0, fun i => BitVec.ofNat 8 (127 + i), fun _ => 0#8, smallBuffer, []⟩

/-- A period of two frames of two bytes is queued from `dump_buf`. -/
theorem audioProcessDma_queues_u8 : QueuesPeriod ⟨.u8, 2, 2, 2⟩ (fun _ => 0) smallStream ∧
    stereoBytes ⟨.u8, 2, 2, 2⟩ smallStream.area 4 2 =
      [0x00#8, 0x03#8, 0x00#8, 0x04#8, 0x00#8, 0x05#8, 0x00#8, 0x06#8] := by
  refine ⟨(audioProcessDma_queues_iff rfl (.inr rfl) (by decide) (by decide)).mpr ?_,
    by decide +kernel⟩
  exact ⟨by decide, by decide, (fun hfloat => nomatch hfloat), rfl⟩

/-- A period of one frame with one channel of 16 bits is queued twice: after the conversion, and as
it is. -/
theorem mono_queued_twice :
    (audioProcessDma ⟨.s16Le, 1, 1, 2⟩ (fun _ => 0) true smallStream).queue =
      [⟨.dump, 4, 4⟩, ⟨.pcm, 2, 2⟩] := by
  decide +kernel

end Wm8850.Pcm
