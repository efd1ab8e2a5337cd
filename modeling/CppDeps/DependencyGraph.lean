import CppDeps.IncludeResolution

/-!
# Dependencies between files

A file depends on the files that it includes and on the files that define a name it calls.  The
edges are computed from the index in one pass; adding files afterwards leaves them as they are
until the next pass.
-/

namespace CppDeps

/-- Why one file depends on another: it includes it, or calls what it defines. -/
inductive DependencyReason
  | includes
  | calls
  deriving DecidableEq, Repr

/-- A directed edge between two files. -/
structure Dependency where
  source : String
  target : String
  reason : DependencyReason
  /-- The line of the directive, for an include. -/
  line : Option Nat := none
  deriving DecidableEq, Repr

/-- The index of all files and the edges found by the last pass over it. -/
structure DependencyGraph where
  index : SymbolIndex
  dependencies : List Dependency

namespace DependencyGraph

/-- The graph without files. -/
def empty : DependencyGraph where
  index := .empty
  dependencies := []

instance : Inhabited DependencyGraph := ⟨empty⟩

/-- Adds a file, or replaces what is known of it.  The edges stay as they are. -/
def addFile (graph : DependencyGraph) (path : String) (symbols : FileSymbols) : DependencyGraph :=
  { graph with index := graph.index.addFile path symbols }

/-- The files with their symbols, in the order in which they were first added. -/
def files (graph : DependencyGraph) : List (String × FileSymbols) :=
  graph.index.files.entries

/-! ## The pass over all files -/

/-- Is there an edge, of whatever reason, from `source` to `target`? -/
def linked (edges : List Dependency) (source target : String) : Bool :=
  edges.any fun edge => edge.source == source && edge.target == target

/-- Adds the edge of an include directive, if the directive means a known file. -/
def addInclude (index : SymbolIndex) (source : String) (edges : List Dependency)
    (directive : Include) : List Dependency :=
  match index.resolveInclude directive.path source with
  | some target => edges ++ [⟨source, target, .includes, some directive.line⟩]
  | none => edges

/-- Adds the edge of a call into `target`, unless the file calls itself or the two files are linked
already. -/
def addCall (source : String) (edges : List Dependency) (target : String) : List Dependency :=
  if target = source ∨ linked edges source target then edges
  else edges ++ [⟨source, target, .calls, none⟩]

/-- Adds the edges of a called name: one into each file that defines it. -/
def addCalls (index : SymbolIndex) (source : String) (edges : List Dependency) (name : String) :
    List Dependency :=
  ((index.resolveCallers name).map Prod.fst).foldl (addCall source) edges

/-- Adds the edges that leave one file: those of its include directives, then those of the names
it calls. -/
def addEdgesOf (index : SymbolIndex) (edges : List Dependency) (file : String × FileSymbols) :
    List Dependency :=
  let included := file.2.includes.foldl (addInclude index file.1) edges
  file.2.calledNames.toList.foldl (addCalls index file.1) included

/-- Computes all edges anew. -/
def analyze (graph : DependencyGraph) : DependencyGraph :=
  { graph with
    dependencies := graph.files.foldl (addEdgesOf graph.index) [] }

end DependencyGraph

end CppDeps
