import PicoBootrom.Runs
import PicoBootrom.ByteMemory
import PicoBootrom.ThumbCpu
import PicoBootrom.ThumbRun
import PicoBootrom.ThumbStack
import PicoBootrom.BinaryPolynomial
import PicoBootrom.Crc32
import PicoBootrom.FloatFormat
import PicoBootrom.FloatCompare
import PicoBootrom.FloatRound
import PicoBootrom.FloatSum
import PicoBootrom.FloatAdd
import PicoBootrom.DoubleAdd
import PicoBootrom.Address
import PicoBootrom.AsyncTask
import PicoBootrom.VirtualDisk
import PicoBootrom.Uf2Transfer
import PicoBootrom.Delivery
import PicoBootrom.LeastKey
import PicoBootrom.Uf2Image
import PicoBootrom.Uf2Ram
import PicoBootrom.SramImage
import PicoBootrom.Uf2Flash
import PicoBootrom.Uf2Reboot
import PicoBootrom.PicobootCommand
import PicoBootrom.Mutation
import PicoBootrom.Interleaving
import PicoBootrom.UsbDevice
import PicoBootrom.UsbLine
import PicoBootrom.UsbHandler
import PicoBootrom.UsbOutLine
import PicoBootrom.UsbInLine
import PicoBootrom.UsbTransferRuns
import PicoBootrom.UsbStream
import PicoBootrom.StreamRuns
import PicoBootrom.PicobootAct
import PicoBootrom.WorkerTurn
import PicoBootrom.ExclusiveAccess
import PicoBootrom.ExitXip
import PicoBootrom.FlashTable
import PicoBootrom.UsbSingle
import PicoBootrom.PicobootUsb
import PicoBootrom.UsbInvariant
import PicoBootrom.PicobootRuns
import PicoBootrom.CommandInstances
import PicoBootrom.FlashErase
import PicoBootrom.AddressChecks
import PicoBootrom.Uf2Tracking
import PicoBootrom.Uf2Bitmaps
import PicoBootrom.FlashBus
import PicoBootrom.SsiTransfer
import PicoBootrom.CoreLaunch
import PicoBootrom.StreamOverrun
import PicoBootrom.UsbFrame
import PicoBootrom.UsbIgnores
import PicoBootrom.UsbNesting
import PicoBootrom.UsbNestingRuns
import PicoBootrom.UsbQuiet
import PicoBootrom.MscCommand
import PicoBootrom.MscUsb
import PicoBootrom.MscTasks
import PicoBootrom.MscPhases
import PicoBootrom.MscStreams
import PicoBootrom.MscWiring
import PicoBootrom.MscPlan
import PicoBootrom.MscDataPhase
import PicoBootrom.MscAccept
import PicoBootrom.MscSteps
import PicoBootrom.TextCompression
import PicoBootrom.TextDecompress
import PicoBootrom.BitFields
import PicoBootrom.BitFunctions
import PicoBootrom.Memset
import PicoBootrom.Memcpy
import PicoBootrom.StreamLengths
import PicoBootrom.FlashAlignment
import PicoBootrom.FlashRangeErase
import PicoBootrom.BootDevice
import PicoBootrom.WatchdogBoot
import PicoBootrom.SetupPackets
import PicoBootrom.MscControl
import PicoBootrom.MscSectors
import PicoBootrom.MscRuns
import PicoBootrom.MscConversation
import PicoBootrom.MscAnswers
import PicoBootrom.PicobootStreams
import PicoBootrom.PicobootChunks
import PicoBootrom.PicobootLog
import PicoBootrom.PicobootEndpoints
import PicoBootrom.PicobootPhases
import PicoBootrom.PicobootSteps
import PicoBootrom.PicobootConversation
import PicoBootrom.Uf2RamFrame
import PicoBootrom.Fat16
import PicoBootrom.DiskSectors
