import Wm8850.Lib.Ring

/-! # Audio for the DMA engine and the wireless display

`audio_process_dma` queues the current period of a stream. The hardware plays two channels of 16
bits; another format is converted into `dump_buf` (`wmt_pcm_fmt_trans`) and queued from there. While
a wireless display is on, each period is also copied into `wfd_audbuf` (`wmt_pcm_wfd_update`), and
the display gets places and lengths of regions to read (`wmt_pcm_wfd_get_strm`).

Pointers are offsets, `mem` is also the memory behind the buffer, and no sum of two sizes wraps. The
driver is built with `CONFIG_SND_WMT_SOC_I2S`. -/

namespace Wm8850.Pcm

open Lib

/-- `struct snd_wfd_buffer`, with its pointers as offsets in `area`. -/
structure SndWfdBuffer where
  mem : Nat → BitVec 8
  bytes : Nat
  valuableSz : Nat
  wrPtr : Nat
  rdPtr : Nat
  enable : Bool

/-- What the display asks for, and what it may read. -/
structure WfdStrmInfo where
  reqSz : Nat
  availSz : Nat
  bufOffset : Nat
  deriving DecidableEq

/-- The display starts with an empty buffer. -/
def wmtPcmWfdGetBuf (b : SndWfdBuffer) : SndWfdBuffer :=
  { b with enable := true, valuableSz := 0, wrPtr := 0, rdPtr := 0 }

/-- The display is given the next region, of at most the size that it asks for. -/
def wmtPcmWfdGetStrm (b : SndWfdBuffer) (info : WfdStrmInfo) : WfdStrmInfo × SndWfdBuffer :=
  if b.bytes < info.reqSz ∨ b.valuableSz = 0 then
    ({ info with availSz := 0 }, b)
  else
    let availSz := if info.reqSz < b.valuableSz then info.reqSz else b.valuableSz
    let valuableSz := if info.reqSz < b.valuableSz then b.valuableSz - info.reqSz else 0
    let rdPtr := b.rdPtr + availSz
    ({ info with availSz, bufOffset := b.rdPtr },
      { b with valuableSz, rdPtr := if b.bytes ≤ rdPtr then rdPtr - b.bytes else rdPtr })

/-- A chunk is copied to the write pointer, which goes back only from the very end of the buffer. -/
def wmtPcmWfdUpdate (b : SndWfdBuffer) (src : List (BitVec 8)) : SndWfdBuffer :=
  let wrPtr := if b.wrPtr + src.length = b.bytes then 0 else b.wrPtr + src.length
  let valuableSz := b.valuableSz + src.length
  { b with
    mem := store b.mem b.wrPtr src
    wrPtr
    valuableSz := if b.bytes ≤ valuableSz then b.bytes else valuableSz
    rdPtr := if b.bytes ≤ valuableSz then wrPtr else b.rdPtr }

/-! ### Sequences of calls -/

/-- A call of the driver or of the display. -/
inductive WfdCall
  | update (src : List (BitVec 8))
  | getStrm (info : WfdStrmInfo)

/-- The bytes of the region that the display was given. -/
def WfdStrmInfo.region (info : WfdStrmInfo) (mem : Nat → BitVec 8) : List (BitVec 8) :=
  (List.range info.availSz).map fun i => mem (info.bufOffset + i)

/-- What the display reads in the calls, region after region. -/
def returned (b : SndWfdBuffer) : List WfdCall → List (BitVec 8)
  | [] => []
  | .update src :: calls => returned (wmtPcmWfdUpdate b src) calls
  | .getStrm info :: calls =>
    let r := wmtPcmWfdGetStrm b info
    r.1.region r.2.mem ++ returned r.2 calls

/-- Every byte that is written, and every region that is returned, lies in the buffer. -/
def InBounds (b : SndWfdBuffer) : List WfdCall → Prop
  | [] => True
  | .update src :: calls =>
    (src ≠ [] → b.wrPtr + src.length ≤ b.bytes) ∧ InBounds (wmtPcmWfdUpdate b src) calls
  | .getStrm info :: calls =>
    let r := wmtPcmWfdGetStrm b info
    (r.1.availSz ≠ 0 → r.1.bufOffset + r.1.availSz ≤ b.bytes) ∧ InBounds r.2 calls

/-- What a queue of at most `bytes` bytes gives in the same calls. A request for more than `bytes`
gives nothing, and bytes that do not fit push the oldest ones out. -/
def queued (bytes : Nat) (pending : List (BitVec 8)) : List WfdCall → List (BitVec 8)
  | [] => []
  | .update src :: calls =>
    queued bytes ((pending ++ src).drop (pending.length + src.length - bytes)) calls
  | .getStrm info :: calls =>
    let availSz := if bytes < info.reqSz then 0 else info.reqSz
    pending.take availSz ++ queued bytes (pending.drop availSz) calls

/-- No chunk and no region of the stream goes over a multiple of the buffer's size. `total` bytes
were written and `pending` of them are left for the display, so that only the sizes of the calls
count. -/
def SizesFit (bytes : Nat) : (total pending : Nat) → List WfdCall → Prop
  | _, _, [] => True
  | total, pending, .update src :: calls =>
    (src ≠ [] → total % bytes + src.length ≤ bytes) ∧
      SizesFit bytes (total + src.length) (min (pending + src.length) bytes) calls
  | total, pending, .getStrm info :: calls =>
    let availSz := if bytes < info.reqSz then 0 else min info.reqSz pending
    (availSz ≠ 0 → (total - pending) % bytes + availSz ≤ bytes) ∧
      SizesFit bytes total (pending - availSz) calls

/-! ### Formats -/

/-- The formats of a sample that the driver converts. -/
inductive Format
  | s16Le | u8 | float
  deriving DecidableEq

def Format.width : Format → Nat
  | .s16Le => 2
  | .u8 => 1
  | .float => 4

/-- The parameters of the stream. -/
structure Runtime where
  format : Format
  channels : Nat
  periodSize : Nat
  periods : Nat

def framesToBytes (rt : Runtime) (size : Nat) : Nat := size * (rt.format.width * rt.channels)

abbrev Mem := Nat → BitVec 8

def half (m : Mem) (p : Nat) : BitVec 16 := (m (p + 1)).setWidth 16 <<< 8 ||| (m p).setWidth 16

def word (m : Mem) (p : Nat) : BitVec 32 :=
  (half m (p + 2)).setWidth 32 <<< 16 ||| (half m p).setWidth 32

def halfBytes (x : BitVec 16) : List (BitVec 8) := [x.setWidth 8, (x >>> 8).setWidth 8]

def wordBytes (x : BitVec 32) : List (BitVec 8) :=
  halfBytes (x.setWidth 16) ++ halfBytes ((x >>> 16).setWidth 16)

/-- The exponent of a float. -/
def floatExp (f : BitVec 32) : Nat := ((f >>> 23).setWidth 8).toNat

/-- `data` for a `float_data_t`. The machine takes the low byte of the distance of a shift, and a
shift by 32 or more gives 0. -/
def floatData (f : BitVec 32) : BitVec 16 :=
  let x := ((f.setWidth 23).setWidth 32 + 0x800000#32) >>> ((135 + 256 - floatExp f) % 256)
  (if f.msb then ~~~x + 1#32 else x).setWidth 16

def wmtSwU2s (fmt : Format) (m : Mem) (p chunksize : Nat) : Mem := fun i =>
  if fmt = .u8 ∧ p ≤ i ∧ i < p + chunksize then m i ^^^ 0x80#8 else m i

/-- The samples for the hardware: 16 bits, two channels. -/
def wmtPcmFmtTrans (fmt : Format) (channel : Nat) (m : Mem) (p chunksize : Nat) : List (BitVec 8) :=
  match fmt, channel with
  | .s16Le, 1 => (List.range (chunksize / 2)).flatMap fun index =>
    let x := (half m (p + 2 * index)).setWidth 32
    wordBytes (x <<< 16 ||| x)
  | .u8, 1 => (List.range chunksize).flatMap fun index =>
    let x := (m (p + index)).setWidth 32
    wordBytes (x <<< 24 ||| x <<< 8)
  | .u8, 2 => (List.range chunksize).flatMap fun index =>
    halfBytes ((m (p + index)).setWidth 16 <<< 8)
  | .float, 2 => (List.range (chunksize / 4)).flatMap fun index =>
    halfBytes (floatData (word m (p + 4 * index)))
  | .float, 1 => (List.range (chunksize / 4)).flatMap fun index =>
    let data := (floatData (word m (p + 4 * index))).setWidth 32
    wordBytes (data <<< 16 ||| data)
  | _, _ => []

/-- The buffer a transfer reads: `runtime->dma_addr`, or `dump_buf`. -/
inductive Source
  | pcm | dump
  deriving DecidableEq

/-- A request for the DMA. -/
structure Transfer where
  source : Source
  addr : Nat
  size : Nat
  deriving DecidableEq

/-- The stream, its areas and its position. -/
structure Stream where
  active : Bool
  period : Nat
  periods : Nat
  offset : Nat
  area : Mem
  dump : Mem
  wfd : SndWfdBuffer
  queue : List Transfer

def wmtStartDma (ret : Transfer → Int) (s : Stream) (t : Transfer) : Int × Stream :=
  (ret t, if ret t = 0 then { s with queue := s.queue ++ [t] } else s)

def maxDmaSize : Nat := 16 * 1024

def cutDmaSize : Nat := 4 * 1024

def playPeriod (rt : Runtime) (ret : Transfer → Int) (s : Stream) (offset dmaSize : Nat) :
    Int × Stream :=
  let s := { s with area := wmtSwU2s rt.format s.area offset dmaSize }
  let trans := wmtPcmFmtTrans rt.format rt.channels s.area offset dmaSize
  let start := fun addr size => wmtStartDma ret { s with dump := store s.dump addr trans }
    ⟨.dump, addr, size⟩
  if rt.channels = 1 ∧ rt.format = .s16Le ∨ rt.channels = 2 ∧ rt.format = .u8 then
    start (2 * offset) (2 * dmaSize)
  else if rt.channels = 1 ∧ rt.format = .u8 then
    start (4 * offset) (4 * dmaSize)
  else if rt.channels = 2 ∧ rt.format = .float then
    start (offset / 2) (dmaSize / 2)
  else if rt.channels = 1 ∧ rt.format = .float then
    start offset dmaSize
  else
    (0, s)

/-- The part of `audio_process_dma` that queues the period as it is, behind the result `r` of the
other. -/
def rawPeriod (rt : Runtime) (ret : Transfer → Int) (playback : Bool) (r : Int × Stream)
    (offset dmaSize : Nat) : Int × Stream :=
  if rt.channels = 2 ∧ rt.format = .s16Le ∨ rt.channels = 1 ∧ rt.format = .s16Le then
    let s := r.2
    let src := (List.range dmaSize).map fun i => s.area (offset + i)
    let s := if playback ∧ s.wfd.enable then { s with wfd := wmtPcmWfdUpdate s.wfd src } else s
    wmtStartDma ret s ⟨.pcm, offset, dmaSize⟩
  else
    r

/-- Queues the next period. -/
def audioProcessDma (rt : Runtime) (ret : Transfer → Int) (playback : Bool) (s : Stream) : Stream :=
  if s.active then
    let dmaSize := framesToBytes rt rt.periodSize
    let dmaSize := if maxDmaSize < dmaSize then cutDmaSize else dmaSize
    let offset := dmaSize * s.period
    let r := if playback then playPeriod rt ret s offset dmaSize else (0, s)
    let r := rawPeriod rt ret playback r offset dmaSize
    if r.1 ≠ 0 then
      r.2
    else
      { r.2 with period := (r.2.period + 1) % rt.periods, periods := r.2.periods + 1, offset }
  else
    s

/-! ### What should be played -/

def Stream.mem (s : Stream) : Source → Mem
  | .pcm => s.area
  | .dump => s.dump

/-- The number a float stands for, in units of `2 ^ -150`. An exponent of 0 has no leading 1. -/
def floatUnits (f : BitVec 32) : Int :=
  let frac := (f.setWidth 23).toNat
  let units : Nat := if floatExp f = 0 then frac * 2 else (2 ^ 23 + frac) * 2 ^ floatExp f
  if f.msb then -units else units

/-- The number times `2 ^ 15`, truncated towards 0 and clamped to 16 bits. -/
def toS16 (units : Int) : Int := max (-2 ^ 15) (min ((units * 2 ^ 15).tdiv (2 ^ 150)) (2 ^ 15 - 1))

/-- The value of a sample in 16 bits. A byte is unsigned, with 128 for silence. A float is the
fraction of the full scale. -/
def sampleAt (fmt : Format) (m : Mem) (p : Nat) : Int :=
  match fmt with
  | .s16Le => (half m p).toInt
  | .u8 => 256 * ((m p).toNat - 128)
  | .float => toS16 (floatUnits (word m p))

/-- The `n` frames at `p` as two channels of 16 bits. A single channel is played on both. -/
def stereoBytes (rt : Runtime) (m : Mem) (p n : Nat) : List (BitVec 8) :=
  (List.range (n * rt.channels)).flatMap fun k =>
    let x := halfBytes (BitVec.ofInt 16 (sampleAt rt.format m (p + rt.format.width * k)))
    if rt.channels = 1 then x ++ x else x

end Wm8850.Pcm
