import ParaTos.Run
import ParaTos.Machine
import ParaTos.Lookup
import ParaTos.LinkedList
import ParaTos.Tiling
import ParaTos.Words
import ParaTos.Mem
import ParaTos.MemLists
import ParaTos.MemRefine
import ParaTos.MemRuns
import ParaTos.MemTiling
import ParaTos.MemCanonical
import ParaTos.MemSearch
import ParaTos.MemUndo
import ParaTos.CString
import ParaTos.Filename
import ParaTos.Path
import ParaTos.PathResolve
import ParaTos.PathContract
import ParaTos.PathRoundTrip
import ParaTos.Bytes
import ParaTos.Memory
import ParaTos.ArgList
import ParaTos.CommandLine
import ParaTos.TailRoundTrip
import ParaTos.Pexec
import ParaTos.PexecEnv
import ParaTos.Loader
import ParaTos.ArgvRoundTrip
import ParaTos.LoaderBounds
import ParaTos.Errno
import ParaTos.MaskCodec
import ParaTos.Signals
import ParaTos.FileHandles
import ParaTos.Streams
import ParaTos.Proc
import ParaTos.ProcRuns
import ParaTos.CookieJar
import ParaTos.CookieJarRuns
import ParaTos.Dir
import ParaTos.DirReads
import ParaTos.DirHandles
import ParaTos.Pool
import ParaTos.FileSearch
import ParaTos.SearchRuns
import ParaTos.Wildcards
import ParaTos.SearchWildcards
import ParaTos.BitScan
import ParaTos.Fselect
import ParaTos.Halting
import ParaTos.Relocate
import ParaTos.MemStarts
import ParaTos.MemNames
import ParaTos.Quoting
import ParaTos.WordBlock
import ParaTos.PexecBlock
import ParaTos.PexecWrites
import ParaTos.PexecLayout
import ParaTos.SearchCalls
import ParaTos.SearchEnumeration
import ParaTos.SearchStats
import ParaTos.SearchPath
import ParaTos.Dgetpath
import ParaTos.Sys
import ParaTos.CookieJarGrowth
import ParaTos.DirBlocks
import ParaTos.Calendar
import ParaTos.Date
import ParaTos.HostStrings
import ParaTos.ShortNames
import ParaTos.Fpoll
import ParaTos.ProcUsage
import ParaTos.PexecRun
import ParaTos.Symlinks
import ParaTos.ByteOrder
import ParaTos.Accessors
import ParaTos.WordBits
import ParaTos.Cpu
import ParaTos.CpuFlags
import ParaTos.CpuChains
import ParaTos.CpuDecimal
import ParaTos.CpuStatus
import ParaTos.CpuExceptions
import ParaTos.CpuNesting
import ParaTos.CpuRegisters
import ParaTos.OpcodeTable
import ParaTos.CpuShifts
import ParaTos.CpuRotations
import ParaTos.CpuMovem
import ParaTos.CpuCalls
import ParaTos.CpuMulDiv
import ParaTos.Dispatch
import ParaTos.DispatchMem
import ParaTos.Dispatch
import ParaTos.DispatchMem
import ParaTos.DispatchMem
