import Mathlib.Data.BitVec

/-! # Messages of the SPI controller

`wmt_spi_work` sends the transfers of a message one after the other, each one through the FIFO in
chunks of 32 bytes or by DMA, and adds up the bytes that the two functions report. What the hardware
answers is a parameter, by the transfer and the number of the question in it. Buffers, chip select,
clock and delays are left out: no length depends on them. -/

namespace Wm8850.Spi

/-- The answers of the hardware: if a FIFO is reset in time, what `SPI_SR` reads, and if a DMA
channel is given or a DMA transfer ends in time. -/
structure Hw where
  reset : Nat → Bool
  sr : Nat → BitVec 32
  dma : Nat → Bool

/-- The answers while the controller is set up for a message, and during each of its transfers. -/
structure MessageHw where
  config : Hw
  transfer : Nat → Hw

def spiFifoSize : Nat := 0x20

def eagain : Int := 11

/-- `spi_reset_fifo`, which `spi_reset` returns: both FIFOs are polled. -/
def spiResetFifo (hw : Hw) (k : Nat) : Bool × Nat :=
  if hw.reset k then (hw.reset (k + 1), k + 2) else (false, k + 1)

/-- `spi_tx_is_finish` and `spi_rx_is_finish`, by the mask. The register is or-ed with the mask. -/
def spiIsFinish (mask : BitVec 32) (hw : Hw) (k : Nat) : Bool := hw.sr k ||| mask ≠ 0

def spiTxIsFinish := spiIsFinish 0x800

def spiRxIsFinish := spiIsFinish 0x100

/-- The loop of `wmt_spi_write_read`: the bytes that are left, and if the loop was left early. -/
def chunkLoop (hw : Hw) (k cnt : Nat) : Nat × Bool × Nat :=
  if spiFifoSize ≤ cnt then
    if !spiTxIsFinish hw k then (cnt, true, k + 1)
    else if !spiRxIsFinish hw (k + 1) then (cnt, true, k + 2)
    else
      let (ok, k) := spiResetFifo hw (k + 2)
      if ok then chunkLoop hw k (cnt - spiFifoSize) else (cnt - spiFifoSize, true, k)
  else (cnt, false, k)
termination_by cnt
decreasing_by simp only [spiFifoSize] at *; omega

/-- `wmt_spi_write_read`: the bytes that are reported. -/
def wmtSpiWriteRead (hw : Hw) (k len : Nat) : Nat × Nat :=
  let (ok, k) := spiResetFifo hw k
  if !ok then (len - len, k)
  else
    let (cnt, out, k) := chunkLoop hw k len
    if out || cnt = 0 then (len - cnt, k)
    else if !spiTxIsFinish hw k then (len - cnt, k + 1)
    else (len, k + 1)

/-- A `struct spi_transfer`. -/
structure SpiTransfer where
  len : Nat
  rx : Bool

/-- `wmt_spi_dma_write_read`. A signal ends the wait like the end of the transfer. -/
def wmtSpiDmaWriteRead (hw : Hw) (k : Nat) (t : SpiTransfer) : Nat × Nat :=
  let (ok, k) := spiResetFifo hw k
  if !ok then (0, k)
  else if !hw.dma k then (0, k + 1)
  else if t.rx && !hw.dma (k + 1) then (0, k + 2)
  else if !hw.dma (k + 2) then (0, k + 3)
  else (t.len, k + 3)

/-- A message, with `dma_support`, `is_dma_mapped` and `dma_en`. -/
structure SpiMessage where
  transfers : List SpiTransfer
  dmaSupport : Bool
  isDmaMapped : Bool
  dmaEn : Bool

/-- The bytes that are reported for a transfer. -/
def transferOne (hw : Hw) (m : SpiMessage) (t : SpiTransfer) : Nat :=
  if t.len = 0 then 0
  else if m.dmaSupport && m.isDmaMapped && m.dmaEn && decide (t.len > spiFifoSize) then
    (wmtSpiDmaWriteRead hw 0 t).1
  else (wmtSpiWriteRead hw 0 t.len).1

/-- The bytes that are reported for each transfer, from number `i` on. -/
def transferAll (hw : Nat → Hw) (m : SpiMessage) : Nat → List SpiTransfer → List Nat
  | _, [] => []
  | i, t :: ts => transferOne (hw i) m t :: transferAll hw m (i + 1) ts

/-- `wmt_spi_work` for one message: the status and `actual_length`, a word. -/
def wmtSpiWork (hw : MessageHw) (m : SpiMessage) : Int × Nat :=
  if !(spiResetFifo hw.config 0).1 then (-eagain, 0)
  else (0, (transferAll hw.transfer m 0 m.transfers).foldl (fun n c => (n + c) % 2 ^ 32) 0)

end Wm8850.Spi
