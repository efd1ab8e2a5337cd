import CppDeps.GraphExport
import CppDeps.Proofs.DependencyGraph.Edges
import CppDeps.Proofs.SymbolIndex.Includes
import Mathlib.Algebra.BigOperators.Group.Finset.Basic

/-!
# The books of an exported document

Every edge of a graph leads from a known file to a known file, since a pass only finds such edges and
no file is ever taken out again (`DependencyGraph.Closed`).  So each link of an exported document has its
two ends among the nodes, and each link is counted at one node as a dependency and at one node as a
dependent: summed over the nodes, both counts give the number of links.
-/

namespace CppDeps

namespace DependencyGraph

variable {graph : DependencyGraph} {history : List (String × FileSymbols)}

/-! ## Edges between known files -/

/-- Both ends of each edge are known files. -/
def Closed (graph : DependencyGraph) : Prop :=
  ∀ edge ∈ graph.dependencies,
    edge.source ∈ graph.index.filePaths ∧ edge.target ∈ graph.index.filePaths

/-- The edges of a file of an index lead to files of the index. -/
lemma target_mem_of_mem_edgesOf {file : String × FileSymbols} {edge : Dependency}
    (hedge : edge ∈ edgesOf (SymbolIndex.ofHistory history) file) :
    edge.target ∈ (SymbolIndex.ofHistory history).filePaths := by
  rcases List.mem_append.1 hedge with hinclude | hcall
  · obtain ⟨directive, -, hresolved⟩ := List.mem_filterMap.1 hinclude
    obtain ⟨target, htarget, rfl⟩ := Option.map_eq_some_iff.1 hresolved
    exact SymbolIndex.mem_filePaths_of_resolveInclude htarget
  · obtain ⟨target, htarget, rfl⟩ := List.mem_map.1 hcall
    obtain ⟨-, -, stored, hstored, -⟩ :=
      (mem_callTargets_iff (SymbolIndex.tracks_ofHistory history)).1 htarget
    exact (SymbolIndex.mem_filePaths_iff _).2 ⟨stored, hstored⟩

/-- Adding a file takes no other out. -/
lemma Closed.addFile (h : graph.Closed) (path : String) (symbols : FileSymbols) :
    (graph.addFile path symbols).Closed := by
  have hmore : ∀ {known}, known ∈ graph.index.filePaths →
      known ∈ (graph.index.addFile path symbols).filePaths := by
    intro known hknown
    rw [SymbolIndex.filePaths_addFile]
    split
    · exact hknown
    · exact List.mem_append_left _ hknown
  intro edge hedge
  obtain ⟨hsource, htarget⟩ := h edge hedge
  exact ⟨hmore hsource, hmore htarget⟩

/-- A pass finds edges between known files. -/
lemma closed_analyze (hindex : graph.index = SymbolIndex.ofHistory history) :
    graph.analyze.Closed := by
  have htracks : graph.index.Tracks history := hindex ▸ SymbolIndex.tracks_ofHistory history
  intro edge hedge
  rw [dependencies_analyze htracks] at hedge
  obtain ⟨file, hfile, hedge⟩ := List.mem_flatMap.1 hedge
  constructor
  · rw [source_of_mem_edgesOf hedge]
    exact List.mem_map_of_mem hfile
  · rw [hindex] at hedge
    show edge.target ∈ graph.index.filePaths
    rw [hindex]
    exact target_mem_of_mem_edgesOf hedge

/-- After any actions the edges lead between known files, also where files were added or replaced after
the last pass. -/
lemma closed_run (actions : List Action) : (run actions).Closed := by
  induction actions using List.reverseRecOn with
  | nil => exact fun edge hedge => absurd hedge List.not_mem_nil
  | append_singleton actions action ih =>
    rw [run, List.foldl_append, ← run]
    cases action with
    | addFile path symbols => exact ih.addFile path symbols
    | analyze => exact closed_analyze (index_run actions)

/-! ## Counting edges at their ends -/

/-- Each member of a list is counted under one key, if the keys are distinct and all members are among
them. -/
lemma sum_count_eq_length {members keys : List String} (hnodup : keys.Nodup)
    (hkeys : ∀ name ∈ members, name ∈ keys) :
    (keys.map fun key => members.count key).sum = members.length := by
  have hcard : ∑ key ∈ keys.toFinset, (members : Multiset String).count key = members.length :=
    Multiset.sum_count_eq_card fun name hname => List.mem_toFinset.2 (hkeys name hname)
  simp only [Multiset.coe_count] at hcard
  rw [← hcard, ← List.sum_toFinset _ hnodup]

/-- A file has a dependency for each edge that leaves it. -/
lemma length_dependenciesOf (graph : DependencyGraph) (file : String) :
    (graph.dependenciesOf file).length = (graph.dependencies.map Dependency.source).count file := by
  rw [dependenciesOf, List.length_map, List.count, List.countP_map, List.countP_eq_length_filter]
  rfl

/-- A file has a dependent for each edge that enters it. -/
lemma length_dependentsOf (graph : DependencyGraph) (file : String) :
    (graph.dependentsOf file).length = (graph.dependencies.map Dependency.target).count file := by
  rw [dependentsOf, List.length_map, List.count, List.countP_map, List.countP_eq_length_filter]
  rfl

/-- Each edge is counted under one file, if its end on one side is always a known file. -/
lemma sum_count_side {side : Dependency → String}
    (hside : ∀ edge ∈ graph.dependencies, side edge ∈ graph.index.filePaths) :
    (graph.index.filePaths.map fun file => (graph.dependencies.map side).count file).sum =
      graph.dependencies.length := by
  have hends : ∀ name ∈ graph.dependencies.map side, name ∈ graph.index.filePaths := by
    intro name hname
    obtain ⟨edge, hedge, rfl⟩ := List.mem_map.1 hname
    exact hside edge hedge
  rw [sum_count_eq_length graph.index.nodup_filePaths hends, List.length_map]

/-- Summed over all files, the dependencies are the edges. -/
lemma Closed.sum_length_dependenciesOf (h : graph.Closed) :
    (graph.index.filePaths.map fun file => (graph.dependenciesOf file).length).sum =
      graph.dependencies.length := by
  simp only [length_dependenciesOf]
  exact sum_count_side fun edge hedge => (h edge hedge).1

/-- Summed over all files, the dependents are the edges. -/
lemma Closed.sum_length_dependentsOf (h : graph.Closed) :
    (graph.index.filePaths.map fun file => (graph.dependentsOf file).length).sum =
      graph.dependencies.length := by
  simp only [length_dependentsOf]
  exact sum_count_side fun edge hedge => (h edge hedge).2

/-- Summed over all files, each edge is coupled twice. -/
lemma Closed.sum_coupling (h : graph.Closed) :
    (graph.index.filePaths.map graph.coupling).sum = 2 * graph.dependencies.length := by
  have hcoupling : graph.coupling = fun file =>
      (graph.dependenciesOf file).length + (graph.dependentsOf file).length := rfl
  rw [hcoupling, List.sum_map_add, h.sum_length_dependenciesOf, h.sum_length_dependentsOf, two_mul]

/-- A file depends on another as often as it is among the dependents of the other. -/
lemma count_dependenciesOf (graph : DependencyGraph) (source target : String) :
    (graph.dependenciesOf source).count target = (graph.dependentsOf target).count source := by
  rw [dependenciesOf, dependentsOf, List.count, List.count, List.countP_map, List.countP_map,
    List.countP_filter, List.countP_filter]
  exact List.countP_congr fun edge _ => by simp [and_comm]

/-! ## The document -/

/-- The nodes of a document are the files of the graph, in their order. -/
lemma map_id_nodes (graph : DependencyGraph) (limits : CycleLimits) :
    (graph.exportWith limits).nodes.map GraphNode.id = graph.index.filePaths := by
  rw [exportWith, exportWithCycles, List.map_map]
  rfl

/-- A count shown at the nodes of a document is that of the files. -/
lemma map_metrics_nodes (graph : DependencyGraph) (limits : CycleLimits) {α : Type}
    {shown : FileMetrics → α} {count : String → α}
    (h : ∀ file symbols, shown (graph.metricsFor file symbols) = count file) :
    ((graph.exportWith limits).nodes.map fun node => shown node.metrics) =
      graph.index.filePaths.map count := by
  have hfiles : graph.index.filePaths = graph.files.map Prod.fst := rfl
  rw [hfiles, exportWith, exportWithCycles, List.map_map, List.map_map]
  exact List.map_congr_left fun file _ => h file.1 file.2

/-- **An exported document is closed and balanced**, after any additions and passes, files added or
replaced after the last pass included, and whatever bounds the cycles.  Its nodes are the files, each
once, in the order of their first additions, and every link leads from a node to a node.  The totals are
the numbers of nodes and links.  The dependencies of all nodes are as many as the links, and so are the
dependents, and their couplings are twice as many.  And a file depends on another as often as it is
among the dependents of the other. -/
theorem exportWith_run (actions : List Action) (limits : CycleLimits) :
    let graph := run actions
    let document := graph.exportWith limits
    let ids := document.nodes.map GraphNode.id
    (ids = graph.index.filePaths ∧
      ids = ((actions.filterMap Action.added?).map Prod.fst).eraseDups ∧ ids.Nodup) ∧
    (∀ link ∈ document.links, link.source ∈ ids ∧ link.target ∈ ids) ∧
    (document.metadata.totalFiles = document.nodes.length ∧
      document.metadata.totalDependencies = document.links.length) ∧
    ((document.nodes.map fun node => node.metrics.dependenciesCount).sum = document.links.length ∧
      (document.nodes.map fun node => node.metrics.dependentsCount).sum = document.links.length ∧
      (document.nodes.map fun node => node.metrics.coupling).sum = 2 * document.links.length) ∧
    ∀ source target : String,
      (graph.dependenciesOf source).count target = (graph.dependentsOf target).count source := by
  intro graph document ids
  have hclosed : graph.Closed := closed_run actions
  have hids : ids = graph.index.filePaths := map_id_nodes graph limits
  have hlinks : document.links.length = graph.dependencies.length := List.length_map _
  have hadded : graph.index.filePaths =
      ((actions.filterMap Action.added?).map Prod.fst).eraseDups := filePaths_run actions
  refine ⟨⟨hids, hids.trans hadded, hids ▸ graph.index.nodup_filePaths⟩, fun link hlink => ?_,
    ⟨rfl, rfl⟩, ⟨?_, ?_, ?_⟩, count_dependenciesOf graph⟩
  · obtain ⟨edge, hedge, rfl⟩ := List.mem_map.1 hlink
    rw [hids]
    exact hclosed edge hedge
  · rw [hlinks, ← hclosed.sum_length_dependenciesOf]
    exact congrArg List.sum (map_metrics_nodes graph limits fun _ _ => rfl)
  · rw [hlinks, ← hclosed.sum_length_dependentsOf]
    exact congrArg List.sum (map_metrics_nodes graph limits fun _ _ => rfl)
  · rw [hlinks, ← hclosed.sum_coupling]
    exact congrArg List.sum (map_metrics_nodes graph limits fun _ _ => rfl)

end DependencyGraph

end CppDeps
