import CppDeps.Cycle.Sweep
import CppDeps.DependencyGraph

/-!
# The graph of files

Files are numbered in the order in which they are first added.  Two files are linked once for each
direction, however many dependencies there are between them, and links are numbered in turn.
-/

namespace CppDeps

/-- A directed graph on files, without parallel edges. -/
structure FileGraph where
  /-- The files in the order in which they were first added. -/
  files : List String
  /-- The edges between numbers of files, in the order in which they were first added. -/
  edges : List (Nat × Nat)
  nodup_files : files.Nodup
  nodup_edges : edges.Nodup

namespace FileGraph

/-- The graph without files. -/
def empty : FileGraph where
  files := []
  edges := []
  nodup_files := List.nodup_nil
  nodup_edges := List.nodup_nil

instance : Inhabited FileGraph := ⟨empty⟩

/-- A value that a list has not can be put at its end. -/
theorem nodup_concat {α : Type} {l : List α} {a : α} (h : l.Nodup) (ha : a ∉ l) : (l ++ [a]).Nodup :=
  List.nodup_append.2
    ⟨h, List.pairwise_singleton _ a, fun _ hb _ ha' heq => ha (List.mem_singleton.1 ha' ▸ heq ▸ hb)⟩

/-- The graph with a new file. -/
def withFile (graph : FileGraph) (file : String) (h : file ∉ graph.files) : FileGraph :=
  { graph with
    files := graph.files ++ [file]
    nodup_files := nodup_concat graph.nodup_files h }

/-- The graph with a new edge. -/
def withEdge (graph : FileGraph) (edge : Nat × Nat) (h : edge ∉ graph.edges) : FileGraph :=
  { graph with
    edges := graph.edges ++ [edge]
    nodup_edges := nodup_concat graph.nodup_edges h }

/-- Adds a file, unless the graph has it, and gives its number. -/
def addNode (graph : FileGraph) (file : String) : FileGraph × Nat :=
  if h : file ∈ graph.files then (graph, graph.files.idxOf file)
  else (graph.withFile file h, graph.files.length)

/-- The numbers of two files. -/
def ends (graph : FileGraph) (link : String × String) : Nat × Nat :=
  (graph.files.idxOf link.1, graph.files.idxOf link.2)

/-- Adds an edge, unless the graph has it, and gives its number; does nothing if one of the files is
unknown. -/
def addEdge (graph : FileGraph) (source target : String) : FileGraph × Option Nat :=
  if source ∈ graph.files ∧ target ∈ graph.files then
    let edge := graph.ends (source, target)
    if h : edge ∈ graph.edges then (graph, some (graph.edges.idxOf edge))
    else (graph.withEdge edge h, some graph.edges.length)
  else (graph, none)

/-- The number of files. -/
def nodeCount (graph : FileGraph) : Nat :=
  graph.files.length

/-- The number of edges. -/
def edgeCount (graph : FileGraph) : Nat :=
  graph.edges.length

/-- The graph of a list of files and the dependencies between them.  A dependency with an unknown
end adds nothing. -/
def ofDependencies (files : List String) (dependencies : List Dependency) : FileGraph :=
  let nodes := files.foldl (fun graph file => (graph.addNode file).1) empty
  dependencies.foldl (fun graph edge => (graph.addEdge edge.source edge.target).1) nodes

/-- The graph on the numbers of the files. -/
def toDigraph (graph : FileGraph) : Digraph graph.files.length :=
  Digraph.ofEdges graph.edges

/-- The simple cycles of the graph, as far as the limits admit them. -/
def findCycles (graph : FileGraph) (limits : CycleLimits) : CycleReport :=
  let tally := graph.toDigraph.cycles limits
  { cycles := tally.cycles.toList.map fun cycle => cycle.map graph.files.get
    truncated := tally.truncated }

end FileGraph

end CppDeps
