import CppDeps.FileType
import CppDeps.Metrics

/-!
# The exported document

A graph is exported as one node for each file, one link for each edge, and the totals.
-/

namespace CppDeps

/-- A declaration shown at a node. -/
structure ExportedSymbol where
  name : String
  line : Nat
  kind : SymbolKind
  deriving DecidableEq, Repr

/-- A file. -/
structure GraphNode where
  id : String
  name : String
  fileType : FileType
  group : String
  exportedSymbols : List ExportedSymbol
  metrics : FileMetrics
  deriving DecidableEq, Repr

/-- An edge between two files. -/
structure GraphLink where
  source : String
  target : String
  reason : DependencyReason
  deriving DecidableEq, Repr

/-- The totals of a document. -/
structure ExportMetadata where
  totalFiles : Nat
  totalDependencies : Nat
  circularDependencies : Nat
  deriving DecidableEq, Repr

/-- The exported document. -/
structure GraphExport where
  nodes : List GraphNode
  links : List GraphLink
  metadata : ExportMetadata
  deriving DecidableEq, Repr

/-! ## Nodes and links -/

/-- How many declarations of a kind a node shows. -/
def shownPerKind : Nat := 5

/-- The declarations that a node shows: the first functions, then the first classes. -/
def exportedSymbols (symbols : FileSymbols) : List ExportedSymbol :=
  (symbols.functions.take shownPerKind).map
      (fun symbol => ⟨symbol.name ++ "()", symbol.startLine, .function⟩) ++
    (symbols.classes.take shownPerKind).map
      (fun symbol => ⟨"class " ++ symbol.name, symbol.startLine, .classType⟩)

namespace DependencyGraph

/-- The node of a file. -/
def exportNode (graph : DependencyGraph) (path : String) (symbols : FileSymbols) : GraphNode where
  id := path
  name := Path.basename path
  fileType := .classify path
  group := Path.group path
  exportedSymbols := exportedSymbols symbols
  metrics := graph.metricsFor path symbols

/-- The document of a graph whose cycles are known. -/
def exportWithCycles (graph : DependencyGraph) (report : CycleReport) : GraphExport :=
  let nodes := graph.files.map fun (path, symbols) => graph.exportNode path symbols
  let links := graph.dependencies.map fun edge => ⟨edge.source, edge.target, edge.reason⟩
  { nodes := nodes
    links := links
    metadata :=
      { totalFiles := nodes.length
        totalDependencies := links.length
        circularDependencies := report.length } }

/-- The document of a graph.  The limits bound the cycles that are counted. -/
def exportWith (graph : DependencyGraph) (limits : CycleLimits) : GraphExport :=
  graph.exportWithCycles (graph.findCycles limits)

end DependencyGraph

end CppDeps
