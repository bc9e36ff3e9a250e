import Rayman2Recomp.Runs
import Rayman2Recomp.BlockArray
import Rayman2Recomp.Disk
import Rayman2Recomp.PakImage
import Rayman2Recomp.PakStore
import Rayman2Recomp.PakSlots
import Rayman2Recomp.PakOverwrite
import Rayman2Recomp.PakClean
import Rayman2Recomp.PakSessions
import Rayman2Recomp.ByteMemory
import Rayman2Recomp.SiPak
import Rayman2Recomp.ShiftRegister
import Rayman2Recomp.PakCrc
import Rayman2Recomp.SiFrames
import Rayman2Recomp.SiReplies
import Rayman2Recomp.SiService
import Rayman2Recomp.SiRuns
import Rayman2Recomp.WriteLog
import Rayman2Recomp.PakMemory
import Rayman2Recomp.PakProtocol
import Rayman2Recomp.PakPresence
import Rayman2Recomp.AccessLog
import Rayman2Recomp.SiAccesses
import Rayman2Recomp.BigEndian
import Rayman2Recomp.DrawDistance
import Rayman2Recomp.CameraFov
import Rayman2Recomp.PendingMatrices
import Rayman2Recomp.Projections
import Rayman2Recomp.Truncation
import Rayman2Recomp.Narrowing
import Rayman2Recomp.DebugReport
import Rayman2Recomp.ReportThreads
import Rayman2Recomp.ReportLayout
import Rayman2Recomp.CrashBlocks
import Rayman2Recomp.CrashWrites
import Rayman2Recomp.CrashIsolation
import Rayman2Recomp.ReportCounts
import Rayman2Recomp.ReportSummary
import Rayman2Recomp.ReportVerdict
import Rayman2Recomp.MaximalRuns
import Rayman2Recomp.ReportWords
import Rayman2Recomp.TextBuffer
import Rayman2Recomp.CNumbers
import Rayman2Recomp.CrashStderr
import Rayman2Recomp.Retention
import Rayman2Recomp.ReportFolder
import Rayman2Recomp.ReportPruning
import Rayman2Recomp.Rt64Context
import Rayman2Recomp.Rt64Shutdown
import Rayman2Recomp.FramePacing
import Rayman2Recomp.FrameCap
import Rayman2Recomp.FrameStall
import Rayman2Recomp.MissingFuncs
import Rayman2Recomp.RefineSyms
import Rayman2Recomp.LinkSyms
import Rayman2Recomp.Extents
import Rayman2Recomp.SurveyRom
import Rayman2Recomp.Saturation
import Rayman2Recomp.SpinLoops
import Rayman2Recomp.CallGraph
import Rayman2Recomp.DemoScan
import Rayman2Recomp.DemoScanPoll
import Rayman2Recomp.ScanCandidates
import Rayman2Recomp.ScanSettling
import Rayman2Recomp.WatchLine
import Rayman2Recomp.MemorySearch
import Rayman2Recomp.Segments
import Rayman2Recomp.MirrorPump
import Rayman2Recomp.FramebufferDump
import Rayman2Recomp.Swizzle
import Rayman2Recomp.Raster
import Rayman2Recomp.FbToPng
import Rayman2Recomp.DumpDecoding
import Rayman2Recomp.PakPersistence
import Rayman2Recomp.SpinRows
import Rayman2Recomp.AsmListing
import Rayman2Recomp.MemoryFreeze
import Rayman2Recomp.RspAudio
import Rayman2Recomp.RspDispatch
import Rayman2Recomp.RspTasks
import Rayman2Recomp.RomOrder
import Rayman2Recomp.Manifest
import Rayman2Recomp.DebugNode
import Rayman2Recomp.PatchMenu
import Rayman2Recomp.IgnoredSyms
