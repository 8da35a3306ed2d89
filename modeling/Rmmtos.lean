import Rmmtos.Memory
import Rmmtos.Kernel.System
import Rmmtos.Kernel.Segments
import Rmmtos.Kernel.Sleeping
import Rmmtos.Kernel.SingleWakeup
import Rmmtos.Kernel.Gate
import Rmmtos.Kernel.OwnershipSteps
import Rmmtos.Kernel.Exit
import Rmmtos.Kernel.Exec
import Rmmtos.Library.Interrupts
import Rmmtos.Kernel.Scheduling
import Rmmtos.Kernel.SleepRace
import Rmmtos.Kernel.ClosedHandles
import Rmmtos.Kernel.TaskRuns
import Rmmtos.Kernel.TaskExit
import Rmmtos.Kernel.IrqRace
import Rmmtos.Kernel.ClockRace
import Rmmtos.Kernel.RegistrationRace
import Rmmtos.Fs.ExclusiveWriter
import Rmmtos.Fs.ChildLists
import Rmmtos.Fs.PathLookups
import Rmmtos.Kernel.HandleTable
import Rmmtos.Kernel.ClockRuns
import Rmmtos.Kernel.AlarmLoop
import Rmmtos.Init.DeadFrees
import Rmmtos.Init.HeaderStores
import Rmmtos.Init.SegmentHelpers
import Rmmtos.Init.Shell
import Rmmtos.Init.Present
import Rmmtos.Init.Uint64
import Rmmtos.Kernel.HeapRuns
import Rmmtos.Kernel.Realloc
import Rmmtos.Fs.FatTable
import Rmmtos.Fs.FatChildren
import Rmmtos.Fs.FatReadFile
import Rmmtos.Fs.BlockRuns
import Rmmtos.Fs.BlockPieces
import Rmmtos.Fs.FatVolume
import Rmmtos.Fs.Calls
import Rmmtos.Fs.FailedMounts
import Rmmtos.Fs.FatLayout
import Rmmtos.Fs.FatEnds
import Rmmtos.Fs.FatEnumeration
import Rmmtos.Fs.FailedLookups
import Rmmtos.Fs.FileFrames
import Rmmtos.Fs.Mount
import Rmmtos.Fs.PathResolution
import Rmmtos.Fs.StaleMemory
import Rmmtos.Char.Modifiers
import Rmmtos.Char.ScreenStores
import Rmmtos.Block.Sectors
import Rmmtos.FormatArguments
import Rmmtos.Fs.Isolation
import Rmmtos.Fs.BootedFiles
import Rmmtos.Fs.FileCalls
import Rmmtos.Fs.ProgramLoads
import Rmmtos.Bcc.LongArithmetic
