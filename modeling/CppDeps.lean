import CppDeps.Main
import CppDeps.Proofs.DependencyGraph.Influence
import CppDeps.Proofs.FileGraph.Cycles
import CppDeps.Proofs.DependencyGraph.Reordering
import CppDeps.Proofs.GraphExport.Balance
import CppDeps.Proofs.Capture.Order
import CppDeps.Proofs.Query.Matches
import CppDeps.Proofs.Extraction.Definitions
import CppDeps.Proofs.Extraction.Scopes
import CppDeps.Proofs.FileGraph.Invariance
import CppDeps.Proofs.FileGraph.Order
import CppDeps.Proofs.Query.Shapes
import CppDeps.Proofs.Extraction.Texts
import CppDeps.Proofs.ByteOrder
import CppDeps.Proofs.Disk.Files
import CppDeps.Proofs.Disk.Following
import CppDeps.Proofs.Json.RoundTrip
import CppDeps.Proofs.Cycle.Pending
import CppDeps.Proofs.Cycle.Path
import CppDeps.Proofs.SymbolIndex.Basenames
import CppDeps.Proofs.Extraction.Includes
import CppDeps.Proofs.DependencyGraph.Ranking
import CppDeps.Proofs.Extraction.Calls
import CppDeps.Proofs.FileGraph.Numbering
import CppDeps.Proofs.Path.Folding
import CppDeps.Proofs.SymbolIndex.RelativePaths
import CppDeps.Entry
import CppDeps.Proofs.OsText
import CppDeps.Proofs.Scan.Sources
import CppDeps.Proofs.Codebase.Files
import CppDeps.Proofs.Scan.FileTypes
import CppDeps.Proofs.Disk.Writing
import CppDeps.Proofs.Program.Rerun
