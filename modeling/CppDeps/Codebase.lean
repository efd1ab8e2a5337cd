import CppDeps.Extraction
import CppDeps.Failure
import CppDeps.Metrics
import CppDeps.Scan

/-!
# Analysis of a directory

The files that a scan finds are parsed and their symbols extracted, each file by itself; the symbols
are then added to a graph in the order of the scan, and the edges are computed.  The parser is a
parameter: any function from the bytes of a file to a syntax tree will do.
-/

namespace CppDeps

/-- A parser: the syntax tree of the bytes of a file. -/
abbrev Parser := ByteArray → SyntaxTree

namespace Disk

/-- The symbols of a file, filed under a key. -/
def symbolsOf (disk : Disk) (parser : Parser) (path : OsText) (key : String) :
    Except Failure FileSymbols :=
  match disk.read path with
  | .ok source => .ok (Extraction.extractSource key (parser source) source)
  | .error fault => .error (.unreadable path fault)

/-- The symbols of a file, filed under its path. -/
def analyzeFile (disk : Disk) (parser : Parser) (path : OsText) : Except Failure FileSymbols :=
  disk.symbolsOf parser path path.lossy

/-- The symbols of a file that was found; none at all if it cannot be read. -/
def extractFile (disk : Disk) (parser : Parser) (file : FoundFile) : FileSymbols :=
  match disk.symbolsOf parser file.path file.key with
  | .ok symbols => symbols
  | .error _ => { filePath := file.key }

/-- The graph of the files below a root. -/
def analyze (disk : Disk) (parser : Parser) (config : AnalysisConfig) (root : OsText) :
    DependencyGraph :=
  let graph := ((disk.scan config root).map (disk.extractFile parser)).foldl
    (fun graph symbols => graph.addFile symbols.filePath symbols) DependencyGraph.empty
  graph.analyze

end Disk

end CppDeps
