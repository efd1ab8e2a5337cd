import CppDeps.FileGraph

/-!
# Coupling between files

How many edges enter and leave each file, and the files ranked by the sum of the two.  Everything
is counted on the current edges of the graph.
-/

namespace CppDeps

/-- The counts for one file. -/
structure FileMetrics where
  file : String
  functionsCount : Nat
  classesCount : Nat
  structsCount : Nat
  includesCount : Nat
  dependenciesCount : Nat
  dependentsCount : Nat
  /-- The number of edges at either end of the file. -/
  coupling : Nat
  deriving DecidableEq, Repr

namespace DependencyGraph

/-- The targets of the edges that leave a file, one for each edge. -/
def dependenciesOf (graph : DependencyGraph) (file : String) : List String :=
  (graph.dependencies.filter fun edge => edge.source == file).map Dependency.target

/-- The sources of the edges that enter a file, one for each edge. -/
def dependentsOf (graph : DependencyGraph) (file : String) : List String :=
  (graph.dependencies.filter fun edge => edge.target == file).map Dependency.source

/-- The number of edges that leave a file plus the number of those that enter it. -/
def coupling (graph : DependencyGraph) (file : String) : Nat :=
  (graph.dependenciesOf file).length + (graph.dependentsOf file).length

/-- The counts for a file with the given symbols. -/
def metricsFor (graph : DependencyGraph) (file : String) (symbols : FileSymbols) : FileMetrics where
  file := file
  functionsCount := symbols.functions.length
  classesCount := symbols.classes.length
  structsCount := symbols.structs.length
  includesCount := symbols.includes.length
  dependenciesCount := (graph.dependenciesOf file).length
  dependentsCount := (graph.dependentsOf file).length
  coupling := graph.coupling file

/-- The counts for a known file. -/
def metrics? (graph : DependencyGraph) (file : String) : Option FileMetrics :=
  (graph.index.file? file).map (graph.metricsFor file)

/-- The first `limit` files by descending coupling; files of equal coupling stay in the order in
which they were added. -/
def mostCoupled (graph : DependencyGraph) (limit : Nat) : List (String × Nat) :=
  let ranked := graph.files.map fun (file, _) => (file, graph.coupling file)
  (ranked.mergeSort fun a b => decide (b.2 ≤ a.2)).take limit

/-- The simple cycles of the files.  The reason and number of the edges between two files do not
matter. -/
def findCycles (graph : DependencyGraph) (limits : CycleLimits) : CycleReport :=
  (FileGraph.ofDependencies graph.index.filePaths graph.dependencies).findCycles limits

end DependencyGraph

end CppDeps
