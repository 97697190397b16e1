import Wm8850.Lib.Checked

/-! # The parser of the data that a monitor sends

The EDID is four blocks of 128 bytes, and all lengths and offsets come from the monitor. Every read,
every store to an array of `edid_info_t` and every division is checked here, so a run ends with the
`Fault` that the source would run into. A `char` is unsigned. What is computed only for `DBGMSG` is
left out, but the reads for it stay. -/

namespace Wm8850.Edid

open Lib List

def edidBlockMax : Nat := 4

def edidLength : Nat := 0x80

def byteAt (edid : Bytes) (i : Nat) : Checked Nat := readAt (edidBlockMax * edidLength) edid i

def sameBytes (edid : Bytes) (base : Nat) : List Nat → Checked Bool
  | [] => pure true
  | b :: bs => do
    let x ← byteAt edid base
    if x = b then sameBytes edid (base + 1) bs else pure false

def edidV1Header : List Nat := [0x00, 0xff, 0xff, 0xff, 0xff, 0xff, 0xff, 0x00]

def combineHi8Lo (hi lo : Nat) : Nat := hi <<< 8 ||| lo

def combineHi4Lo (hi lo : Nat) : Nat := hi <<< 4 ||| lo

def upperNibble (x : Nat) : Nat := (0xF0 &&& x) >>> 4

def lowerNibble (x : Nat) : Nat := 0x0F &&& x

/-! ### What is filled in -/

structure EdidTiming where
  resx : Nat
  resy : Nat
  freq : BitVec 32
deriving DecidableEq

/-- `vpp_timing_t`. -/
structure VppTiming where
  pixelClock : Nat
  option : BitVec 32
  hsync : Nat
  hbp : Nat
  hpixel : Nat
  hfp : Nat
  vsync : Nat
  vbp : Nat
  vpixel : Nat
  vfp : Nat
deriving DecidableEq

/-- `edid_info_t`, what is known of the monitor. -/
structure EdidInfo where
  establishTiming : Nat
  standardTiming : Fin 8 → EdidTiming
  detailTiming : Fin 4 → VppTiming
  ceaTiming : Fin 6 → EdidTiming
  ceaVic : Fin 8 → BitVec 8
  pixelClockLimit : Nat
  option : BitVec 32
  hdmiPhyAddr : Nat

def optValid : BitVec 32 := 0x01#32

def optHdmi : BitVec 32 := 0x100#32

def opt169 : BitVec 32 := 0x400#32

/-- After `memset`. -/
def EdidInfo.clear : EdidInfo where
  establishTiming := 0
  standardTiming := fun _ => ⟨0, 0, 0#32⟩
  detailTiming := fun _ => ⟨0, 0#32, 0, 0, 0, 0, 0, 0, 0, 0⟩
  ceaTiming := fun _ => ⟨0, 0, 0#32⟩
  ceaVic := fun _ => 0#8
  pixelClockLimit := 0
  option := 0#32
  hdmiPhyAddr := 0

/-! ### The first block -/

def unknownDescriptor : Int := -1

def detailedTimingBlock : Int := -2

def monitorName : Int := 0xfc

def monitorLimits : Int := 0xfd

def blockType (edid : Bytes) (block : Nat) : Checked Int := do
  if ← sameBytes edid block [0x00, 0x00] then
    let b2 ← byteAt edid (block + 2)
    if b2 ≠ 0 then pure unknownDescriptor
    else
      let b3 ← byteAt edid (block + 3)
      pure b3
  else pure detailedTimingBlock

def getVendorSign (edid : Bytes) (block : Nat) : Checked (List Nat) := do
  let b0 ← byteAt edid block
  let b1 ← byteAt edid (block + 1)
  let h := combineHi8Lo b0 b1
  pure [((h >>> 10) &&& 0x1f) + 64, ((h >>> 5) &&& 0x1f) + 64, (h &&& 0x1f) + 64, 0]

def getMonitorName (edid : Bytes) : Nat → Nat → Checked (List Nat)
  | 0, _ => pure []
  | n + 1, ptr => do
    let b ← byteAt edid ptr
    if b = 0xa then pure [0]
    else
      let rest ← getMonitorName edid n (ptr + 1)
      pure (b :: rest)

def descriptorAt (i : Nat) : Nat := 0x36 + 18 * i

def identify (edid : Bytes) (sign : List Nat) : List Nat → Checked (List Nat)
  | [] => do
    let m0 ← byteAt edid 0x0a
    let m1 ← byteAt edid 0x0b
    pure (sign ++ [m0, m1])
  | i :: rest => do
    let type ← blockType edid (descriptorAt i)
    if type = monitorName then getMonitorName edid 13 (descriptorAt i + 5)
    else identify edid sign rest

def parseMonitorLimits (edid : Bytes) (block : Nat) (info : EdidInfo) : Checked EdidInfo := do
  let b9 ← byteAt edid (block + 9)
  if b9 * 10 = 10 * 0xff then pure info else pure { info with pixelClockLimit := b9 * 10 }

def getEstablishedTiming (edid : Bytes) (info : EdidInfo) : Checked EdidInfo := do
  let time1 ← byteAt edid 0x23
  let time2 ← byteAt edid 0x24
  pure { info with establishTiming := time1 + time2 <<< 8 }

def standardVRes (hRes byte2 : Nat) : Nat :=
  if byte2 &&& 0xC0 = 0x40 then hRes * 3 / 4
  else if byte2 &&& 0xC0 = 0x80 then hRes * 4 / 5
  else if byte2 &&& 0xC0 = 0xC0 then hRes * 9 / 16
  else hRes * 10 / 16

def getStandardTiming (edid : Bytes) : Nat → Nat → EdidInfo → Checked EdidInfo
  | 0, _, info => pure info
  | n + 1, i, info => do
    let byte1 ← byteAt edid (0x26 + 2 * i)
    let byte2 ← byteAt edid (0x26 + 2 * i + 1)
    if byte1 = 0x01 ∧ byte2 = 0x01 then pure info
    else
      let hRes := byte1 * 8 + 248
      let standardTiming ← storeAt info.standardTiming i fun _ =>
        ⟨hRes, standardVRes hRes byte2, BitVec.ofNat 32 ((byte2 &&& 0x1F) + 60)⟩
      getStandardTiming edid n (i + 1) { info with standardTiming }

structure Sizes where
  hactive : Nat
  hblanking : Nat
  vactive : Nat
  vblanking : Nat
deriving DecidableEq

def readSizes (edid : Bytes) (dtd : Nat) : Checked Sizes := do
  let b2 ← byteAt edid (dtd + 2)
  let b3 ← byteAt edid (dtd + 3)
  let b4 ← byteAt edid (dtd + 4)
  let b5 ← byteAt edid (dtd + 5)
  let b6 ← byteAt edid (dtd + 6)
  let b7 ← byteAt edid (dtd + 7)
  pure ⟨combineHi8Lo (upperNibble b4) b2, combineHi8Lo (lowerNibble b4) b3,
    combineHi8Lo (upperNibble b7) b5, combineHi8Lo (lowerNibble b7) b6⟩

def voutCheckRatio169 (resx resy : Nat) : Checked Bool := do
  let val ← divideBy (resx * 10) resy
  pure (15 ≤ val)

def setOptFps (option : BitVec 32) (fps : Nat) : BitVec 32 :=
  (option &&& ~~~0xFF000000#32) ||| (BitVec.ofNat 32 fps <<< 24)

def flagOption (flags mask : Nat) (option : BitVec 32) : BitVec 32 :=
  if flags &&& mask ≠ 0 then option else 0#32

/-- The stores of `parse_timing_description` to the slot `i`: the clock and the eight sizes. -/
def storeDetail (edid : Bytes) (dtd : Nat) (s : Sizes) (i : Fin 4) (info : EdidInfo) :
    Checked EdidInfo := do
  let b0 ← byteAt edid dtd
  let b1 ← byteAt edid (dtd + 1)
  let b8 ← byteAt edid (dtd + 8)
  let b9 ← byteAt edid (dtd + 9)
  let b10 ← byteAt edid (dtd + 10)
  let b11 ← byteAt edid (dtd + 11)
  let hsyncOffset := combineHi4Lo ((b11 &&& 0xC0) >>> 6) b8
  let hsyncWidth := combineHi4Lo ((b11 &&& 0x30) >>> 4) b9
  let vsyncOffset := combineHi4Lo ((b11 &&& 0x0C) >>> 2) (upperNibble b10)
  let vsyncWidth := combineHi4Lo (b11 &&& 0x03) (lowerNibble b10)
  let timing : VppTiming :=
    { pixelClock := combineHi8Lo b1 b0 * 10000
      option := (info.detailTiming i).option
      hfp := hsyncOffset
      hsync := hsyncWidth
      hpixel := s.hactive
      hbp := wsub s.hblanking (hsyncWidth + hsyncOffset)
      vfp := vsyncOffset
      vsync := vsyncWidth
      vpixel := s.vactive
      vbp := wsub s.vblanking (vsyncWidth + vsyncOffset) }
  pure { info with detailTiming := Function.update info.detailTiming i timing }

/-- What `parse_timing_description` does behind the stores: the frame rate, the flags of the
timing, and whether the picture is wide. -/
def rateDetail (edid : Bytes) (dtd : Nat) (s : Sizes) (i : Fin 4) (info : EdidInfo) :
    Checked EdidInfo := do
  let t := info.detailTiming i
  let fps ← divideBy t.pixelClock ((s.vactive + s.vblanking) * (s.hactive + s.hblanking))
  let flags ← byteAt edid (dtd + 17)
  let option := setOptFps t.option (if fps = 59 then 60 else fps) |||
    flagOption flags 128 0x01#32 ||| flagOption flags 4 0x0A#32 ||| flagOption flags 2 0x14#32
  let wide ← voutCheckRatio169 s.hactive s.vactive
  pure { info with
    detailTiming := Function.update info.detailTiming i { t with option }
    option := if wide then info.option ||| opt169 else info.option }

/-- The first slot without a pixel clock. -/
def freeSlot (info : EdidInfo) : Option (Fin 4) :=
  (finRange 4).find? fun i => (info.detailTiming i).pixelClock = 0

/-- A detailed timing goes into the first free slot. -/
def parseTimingDescription (edid : Bytes) (dtd : Nat) (info : EdidInfo) : Checked EdidInfo := do
  let sizes ← readSizes edid dtd
  match freeSlot info with
  | none => pure info
  | some i =>
    let info ← storeDetail edid dtd sizes i info
    rateDetail edid dtd sizes i info

def sumBytes (edid : Bytes) (base len : Nat) : Checked Nat :=
  (range len).foldlM (fun sum i => do
    let b ← byteAt edid (base + i)
    pure ((sum + b) % 256)) 0

/-- A block with the header of the first version passes without its checksum. -/
def edidChecksum (edid : Bytes) (base len : Nat) : Checked Nat := do
  let checksum ← sumBytes edid base len
  if len > 8 then
    if ← sameBytes edid base edidV1Header then pure 0 else pure checksum
  else pure checksum

def edidParseV1 (edid : Bytes) (info : EdidInfo) : Checked (Int × EdidInfo) := do
  let checksum ← edidChecksum edid 0 edidLength
  if checksum ≠ 0 then pure (-1, info)
  else if ← sameBytes edid 0 edidV1Header then
    let sign ← getVendorSign edid 0x08
    let _ ← identify edid sign (range 4)
    let _ ← byteAt edid 0x18
    let info ← getEstablishedTiming edid info
    let info ← getStandardTiming edid 8 0 info
    let info ← (range 4).foldlM (fun info i => do
      let type ← blockType edid (descriptorAt i)
      if type = monitorLimits then parseMonitorLimits edid (descriptorAt i) info else pure info)
        info
    let info ← (range 4).foldlM (fun info i => do
      let type ← blockType edid (descriptorAt i)
      if type = detailedTimingBlock then parseTimingDescription edid (descriptorAt i) info
      else pure info) info
    pure (0, info)
  else pure (-1, info)

/-! ### The extension blocks -/

def videoBlock (edid : Bytes) : Nat → Nat → EdidInfo → Checked EdidInfo
  | 0, _, info => pure info
  | n + 1, p, info => do
    let b ← byteAt edid p
    let vic := b &&& 0x7F
    let ceaVic ← storeAt info.ceaVic (vic / 8) fun old => old ||| (1#8 <<< (vic % 8))
    videoBlock edid n (p + 1) { info with ceaVic }

def structures3d (edid : Bytes) (block index stop : Nat) : Checked Unit := do
  if index < stop then
    let b ← byteAt edid (block + index)
    if b &&& 0x8 ≠ 0 then
      let _ ← byteAt edid (block + (index + 1))
      structures3d edid block (index + 2) stop
    else structures3d edid block (index + 1) stop
  else pure ()
termination_by stop - index

def allStructures3d (edid : Bytes) (block index present : Nat) : Checked Nat :=
  if present &&& 0x60 = 0x40 then do
    let _ ← byteAt edid (block + index)
    let _ ← byteAt edid (block + (index + 1))
    let _ ← byteAt edid (block + (index + 2))
    let _ ← byteAt edid (block + (index + 3))
    pure (index + 4)
  else if present &&& 0x60 = 0x20 then do
    let _ ← byteAt edid (block + index)
    let _ ← byteAt edid (block + (index + 1))
    pure (index + 2)
  else pure index

def hdmiVideo (edid : Bytes) (block index : Nat) : Checked Unit := do
  let present ← byteAt edid (block + index)
  let lens ← byteAt edid (block + (index + 1))
  let start := index + 2 + ((lens &&& 0xE0) >>> 5)
  if lens &&& 0x1F ≠ 0 then
    let next ← allStructures3d edid block start present
    structures3d edid block next ((lens &&& 0x1F) + start)
  else pure ()

def hdmiVideoIndex (fields : Nat) : Nat :=
  9 + (if fields &&& 0x80 ≠ 0 then 2 else 0) + (if fields &&& 0x40 ≠ 0 then 2 else 0)

def vendorBlock (edid : Bytes) (block len : Nat) (info : EdidInfo) : Checked EdidInfo := do
  if len < 5 then pure info
  else
    let hdmi ← sameBytes edid (block + 1) [0x03, 0x0C, 0x00]
    let b4 ← byteAt edid (block + 4)
    let b5 ← byteAt edid (block + 5)
    let info := { info with
      option := if hdmi then info.option ||| optHdmi else info.option
      hdmiPhyAddr := b4 <<< 8 + b5 }
    if len < 8 then pure info
    else
      let fields ← byteAt edid (block + 8)
      if fields &&& 0x20 ≠ 0 then
        hdmiVideo edid block (hdmiVideoIndex fields)
        pure info
      else pure info

/-- The length of a data block, which is not used for the tags without a case of their own. -/
def blockLen (head : Nat) : Nat :=
  if (head &&& 0xE0) >>> 5 = 0 ∨ (head &&& 0xE0) >>> 5 = 6 then 0 else head &&& 0x1F

def dataBlock (edid : Bytes) (block head : Nat) (info : EdidInfo) : Checked EdidInfo :=
  if (head &&& 0xE0) >>> 5 = 1 then do
    -- the format of the audio is read to choose a message
    let _ ← byteAt edid (block + 1)
    pure info
  else if (head &&& 0xE0) >>> 5 = 2 then videoBlock edid (head &&& 0x1F) (block + 1) info
  else if (head &&& 0xE0) >>> 5 = 3 then vendorBlock edid block (head &&& 0x1F) info
  else pure info

def dataBlocks (edid : Bytes) (blockEnd block : Nat) (info : EdidInfo) : Checked EdidInfo := do
  let head ← byteAt edid block
  let info ← dataBlock edid block head info
  if block + (1 + blockLen head) < blockEnd then
    dataBlocks edid blockEnd (block + (1 + blockLen head)) info
  else pure info
termination_by blockEnd - block

def tmrInterlace : BitVec 32 := 0x80000000#32

def ceaTimings (edid : Bytes) : Nat → Nat → Nat → EdidInfo → Checked EdidInfo
  | 0, _, _, info => pure info
  | n + 1, i, block, info => do
    let b1 ← byteAt edid (block + 1)
    let b0 ← byteAt edid block
    let pixclk := (b1 <<< 8 + b0) * 10000
    if pixclk = 0 then pure info
    else
      let b4 ← byteAt edid (block + 4)
      let b2 ← byteAt edid (block + 2)
      let b3 ← byteAt edid (block + 3)
      let b7 ← byteAt edid (block + 7)
      let b5 ← byteAt edid (block + 5)
      let b6 ← byteAt edid (block + 6)
      let hpixel := (b4 &&& 0xF0) <<< 4 + b2
      let hporch := (b4 &&& 0x0F) <<< 8 + b3
      let vpixel := (b7 &&& 0xF0) <<< 4 + b5
      let vporch := (b7 &&& 0x0F) <<< 8 + b6
      let fps ← divideBy pixclk ((hpixel + hporch) * (vpixel + vporch))
      let b17 ← byteAt edid (block + 17)
      let ceaTiming ← storeAt info.ceaTiming i fun _ =>
        ⟨hpixel, if b17 &&& 0x80 ≠ 0 then vpixel * 2 else vpixel,
          BitVec.ofNat 32 (if fps = 59 then 60 else fps) ||| flagOption b17 0x80 tmrInterlace⟩
      ceaTimings edid n (i + 1) (block + 18) { info with ceaTiming }

def edidParseCea (edid : Bytes) (base : Nat) (info : EdidInfo) : Checked (Int × EdidInfo) := do
  if ← sameBytes edid base [0x2, 0x3] then
    let checksum ← sumBytes edid base edidLength
    if checksum ≠ 0 then pure (-1, info)
    else
      let b3 ← byteAt edid (base + 3)
      let info := { info with option := info.option ||| BitVec.ofNat 32 (b3 &&& 0xF0) }
      let b2 ← byteAt edid (base + 2)
      let info ← dataBlocks edid (base + b2) (base + 4) info
      let info ← ceaTimings edid ((128 - b2) / 18) 0 (base + b2) info
      pure (0, info)
  else pure (-1, info)

def edidDump (edid : Bytes) (base : Nat) : Checked Unit :=
  (range edidLength).foldlM (fun _ i => do
    let _ ← byteAt edid (base + i)
    pure ()) ()

def extensions (edid : Bytes) : Nat → Nat → EdidInfo → Checked EdidInfo
  | 0, _, info => pure info
  | n + 1, base, info => do
    let (ret, info) ← edidParseCea edid (base + 128) info
    if ret ≠ 0 then
      edidDump edid (base + 128)
      extensions edid n (base + 128) info
    else extensions edid n (base + 128) info

/-- The options of the monitor, or 0, and what was found. -/
def edidParse (edid : Bytes) (info : EdidInfo) : Checked (BitVec 32 × EdidInfo) := do
  if info.option &&& optValid ≠ 0#32 then pure (info.option, info)
  else
    let (ret, info) ← edidParseV1 edid { EdidInfo.clear with option := optValid }
    if ret = 0 then
      let extCnt ← byteAt edid 0x7E
      let info ← extensions edid (if extCnt ≥ edidBlockMax then edidBlockMax - 1 else extCnt) 0 info
      pure (info.option, info)
    else pure (0#32, { info with option := 0#32 })

end Wm8850.Edid
