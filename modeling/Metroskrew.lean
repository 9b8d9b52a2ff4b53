import Metroskrew.Library.Window
import Metroskrew.Bytes
import Metroskrew.Relink.PeFile
import Metroskrew.Relink.DumpAsm
import Metroskrew.Patch.PatchMacros
import Metroskrew.Relink.SectionRun
import Metroskrew.Relink.SectionLayout
import Metroskrew.Relink.EmittedOnce
import Metroskrew.Patch.Scan
import Metroskrew.Patch.ScanText
import Metroskrew.Library.PathResolution
import Metroskrew.Patch.Relpath
import Metroskrew.Patch.RelpathNames
import Metroskrew.Library.MsArgv
import Metroskrew.Wrap.WinArgv
import Metroskrew.Wrap.WinArgvParse
import Metroskrew.Library.Dominators
import Metroskrew.Patch.BitArr
import Metroskrew.Patch.Fun00505340
import Metroskrew.Patch.HackReplay
import Metroskrew.Patch.HackDeterminism
import Metroskrew.Patch.DominatorRows
import Metroskrew.Library.MakeRule
import Metroskrew.Dlls.Utils
import Metroskrew.Dlls.GlobalMem
import Metroskrew.Patch.DepfileBuild
import Metroskrew.Patch.DepfileRule
import Metroskrew.Dlls.Kernel32
import Metroskrew.Patch.EscapeSpaces
import Metroskrew.Dlls.User32
import Metroskrew.Relink.ExportTable
import Metroskrew.Relink.ExportLabels
import Metroskrew.Library.Concatenation
import Metroskrew.Relink.ImportTable
import Metroskrew.Relink.ImportDecode
import Metroskrew.Relink.ImportOrigins
import Metroskrew.Relink.RsrcTree
import Metroskrew.Patch.ScanFinders
import Metroskrew.Patch.ScanBounds
import Metroskrew.Library.Settling
import Metroskrew.Patch.FixLoopEnds
import Metroskrew.Patch.CallTargets
import Metroskrew.Patch.FindFs
import Metroskrew.Patch.RelpathBelow
import Metroskrew.Patch.RelpathWin
import Metroskrew.Relink.HeaderGeometry
import Metroskrew.Patch.RelpathRepeated
import Metroskrew.Wrap.ParseArgs
import Metroskrew.Dlls.FullPathSize
import Metroskrew.Dlls.LoadStringBounds
import Metroskrew.Library.Comparing
import Metroskrew.Patch.SortLoc
import Metroskrew.Library.Buffer
import Metroskrew.Patch.RelpathMemory
import Metroskrew.Wrap.QuotingExact
import Metroskrew.Dlls.FindFile
import Metroskrew.Dlls.FindFileRuns
import Metroskrew.Library.Linking
import Metroskrew.Relink.Link
import Metroskrew.Library.Memory
import Metroskrew.Relink.LinkedSymbols
import Metroskrew.Dlls.LinkedStrings
import Metroskrew.Dlls.FileHandles
import Metroskrew.Dlls.FileStore
import Metroskrew.Dlls.FileRefinement
import Metroskrew.Dlls.FileRuns
import Metroskrew.Wrap.Locate
import Metroskrew.Wrap.RemoveIpa
import Metroskrew.Wrap.Tmain
import Metroskrew.Wrap.Child
import Metroskrew.Library.MachineCode
import Metroskrew.Patch.Hooks
import Metroskrew.Relink.ScannedHooks
import Metroskrew.Dlls.GlobalHeap
import Metroskrew.Dlls.GlobalRuns
import Metroskrew.Relink.WrittenDump
import Metroskrew.Patch.GasText
