import Wm8850.Proofs.Ashmem.Shrink
import Wm8850.Proofs.Battery.Update
import Wm8850.Proofs.Binder.BufferRuns
import Wm8850.Proofs.Binder.RefRuns
import Wm8850.Proofs.Bootanimation.Buffer
import Wm8850.Proofs.Clk.Commands
import Wm8850.Proofs.Dma.Runs
import Wm8850.Proofs.Edid.Timing
import Wm8850.Proofs.Env.Indexes
import Wm8850.Proofs.Env.Params
import Wm8850.Proofs.Ge.Coalesced
import Wm8850.Proofs.Ge.Lock
import Wm8850.Proofs.Ge.Users
import Wm8850.Proofs.Hdmi.Reads
import Wm8850.Proofs.I2c.Runs
import Wm8850.Proofs.Logger.Read
import Wm8850.Proofs.Logger.Runs
import Wm8850.Proofs.Lowmem.Shrink
import Wm8850.Proofs.MemBlock.Addresses
import Wm8850.Proofs.MemBlock.GetPut
import Wm8850.Proofs.Nand.BbtRecovery
import Wm8850.Proofs.Nand.BbtRegions
import Wm8850.Proofs.Nand.Bch
import Wm8850.Proofs.Nand.Mapping
import Wm8850.Proofs.Nand.Randomizer
import Wm8850.Proofs.Nand.Write
import Wm8850.Proofs.Pcm.Process
import Wm8850.Proofs.RamConsole.Log
import Wm8850.Proofs.Rtc.Time
import Wm8850.Proofs.Sf.Requests
import Wm8850.Proofs.Spi.Message
import Wm8850.Proofs.Udc.Pdma
