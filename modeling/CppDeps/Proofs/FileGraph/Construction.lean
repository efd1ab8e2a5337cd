import CppDeps.FileGraph
import CppDeps.Proofs.Digraph.Reachability
import CppDeps.Proofs.Lists

/-!
# The graph that a list of dependencies makes

The files of `FileGraph.ofDependencies` are the given files in the order of their first occurrence,
and two of them are linked if a dependency names them (`FileGraph.edge_toDigraph_iff`), whatever other
dependencies there are.  The graphs that any files and edges make, added in any order, are those of
`FileGraph.run`.
-/

namespace CppDeps

namespace FileGraph

variable {graph : FileGraph} {source target : String} {files : List String}
  {dependencies : List Dependency}

/-! ## Files -/

/-- A file is added at the end, unless the graph has it. -/
lemma files_addNode (graph : FileGraph) (file : String) :
    (graph.addNode file).1.files =
      if file ∈ graph.files then graph.files else graph.files ++ [file] := by
  unfold addNode
  split <;> rfl

/-- Adding a file leaves the edges alone. -/
lemma edges_addNode (graph : FileGraph) (file : String) :
    (graph.addNode file).1.edges = graph.edges := by
  unfold addNode
  split <;> rfl

/-- The number that is given for a file is its position. -/
lemma addNode_snd (graph : FileGraph) (file : String) :
    (graph.addNode file).2 = (graph.addNode file).1.files.idxOf file := by
  rw [files_addNode]
  by_cases hfile : file ∈ graph.files
  · rw [if_pos hfile, addNode, dif_pos hfile]
  · rw [if_neg hfile, addNode, dif_neg hfile, List.idxOf_append_of_notMem hfile,
      List.idxOf_cons_self, Nat.add_zero]

/-- The graph of a list of files, without edges. -/
def ofFiles (files : List String) : FileGraph :=
  files.foldl (fun graph file => (graph.addNode file).1) empty

/-- Adding files one after another keeps the first occurrence of each. -/
lemma files_ofFiles (files : List String) : (ofFiles files).files = files.eraseDups := by
  induction files using List.reverseRecOn with
  | nil => rfl
  | append_singleton files file ih =>
    rw [ofFiles, List.foldl_append, List.foldl_cons, List.foldl_nil, files_addNode, ← ofFiles, ih,
      eraseDups_concat]
    simp only [List.mem_eraseDups]

/-- Adding files adds no edges. -/
lemma edges_ofFiles (files : List String) : (ofFiles files).edges = [] := by
  induction files using List.reverseRecOn with
  | nil => rfl
  | append_singleton files file ih =>
    rw [ofFiles, List.foldl_append, List.foldl_cons, List.foldl_nil, edges_addNode]
    exact ih

/-! ## Edges -/

/-- Adding an edge leaves the files alone. -/
lemma files_addEdge (graph : FileGraph) (source target : String) :
    (graph.addEdge source target).1.files = graph.files := by
  unfold addEdge
  split
  · dsimp only
    split <;> rfl
  · rfl

/-- An edge with a missing end is refused. -/
lemma addEdge_of_unknown (h : ¬ (source ∈ graph.files ∧ target ∈ graph.files)) :
    graph.addEdge source target = (graph, none) := by
  rw [addEdge, if_neg h]

/-- An edge between known files that the graph has is found. -/
lemma addEdge_of_mem (hknown : source ∈ graph.files ∧ target ∈ graph.files)
    (hedge : graph.ends (source, target) ∈ graph.edges) :
    graph.addEdge source target =
      (graph, some (graph.edges.idxOf (graph.ends (source, target)))) := by
  rw [addEdge, if_pos hknown]
  exact dif_pos hedge

/-- An edge between known files that the graph has not is added. -/
lemma addEdge_of_notMem (hknown : source ∈ graph.files ∧ target ∈ graph.files)
    (hedge : graph.ends (source, target) ∉ graph.edges) :
    graph.addEdge source target =
      (graph.withEdge (graph.ends (source, target)) hedge, some graph.edges.length) := by
  rw [addEdge, if_pos hknown]
  exact dif_neg hedge

/-- The edges after one between known files was added. -/
lemma edges_addEdge (hknown : source ∈ graph.files ∧ target ∈ graph.files) :
    (graph.addEdge source target).1.edges =
      if graph.ends (source, target) ∈ graph.edges then graph.edges
      else graph.edges ++ [graph.ends (source, target)] := by
  split
  · rename_i hedge
    rw [addEdge_of_mem hknown hedge]
  · rename_i hedge
    rw [addEdge_of_notMem hknown hedge]
    rfl

/-- An edge is added if both of its ends are known. -/
lemma mem_edges_addEdge_iff (graph : FileGraph) (source target : String) (v w : ℕ) :
    (v, w) ∈ (graph.addEdge source target).1.edges ↔
      (v, w) ∈ graph.edges ∨
        graph.files.idxOf? source = some v ∧ graph.files.idxOf? target = some w := by
  by_cases hknown : source ∈ graph.files ∧ target ∈ graph.files
  · obtain ⟨hsource, htarget⟩ := hknown
    have hends : graph.files.idxOf? source = some v ∧ graph.files.idxOf? target = some w ↔
        (v, w) = graph.ends (source, target) := by
      rw [idxOf?_of_mem hsource, idxOf?_of_mem htarget, ends, Prod.mk.injEq, Option.some.injEq,
        Option.some.injEq, eq_comm (b := v), eq_comm (b := w)]
    rw [hends, edges_addEdge ⟨hsource, htarget⟩]
    split
    · rename_i hmem
      exact (or_iff_left_of_imp fun heq => heq ▸ hmem).symm
    · rw [List.mem_append, List.mem_singleton]
  · rw [addEdge_of_unknown hknown]
    refine (or_iff_left fun hnumbers => hknown ?_).symm
    exact ⟨List.isSome_idxOf?.1 (Option.isSome_of_eq_some hnumbers.1),
      List.isSome_idxOf?.1 (Option.isSome_of_eq_some hnumbers.2)⟩

/-- Adding edges one after another leaves the files alone. -/
lemma files_foldl_addEdge (graph : FileGraph) (dependencies : List Dependency) :
    (dependencies.foldl (fun graph edge => (graph.addEdge edge.source edge.target).1) graph).files =
      graph.files := by
  induction dependencies generalizing graph with
  | nil => rfl
  | cons dependency dependencies ih =>
    rw [List.foldl_cons, ih, files_addEdge]

/-- Adding edges one after another adds those whose ends are known. -/
lemma mem_edges_foldl_addEdge_iff (graph : FileGraph) (dependencies : List Dependency) (v w : ℕ) :
    (v, w) ∈ (dependencies.foldl
        (fun graph edge => (graph.addEdge edge.source edge.target).1) graph).edges ↔
      (v, w) ∈ graph.edges ∨ ∃ edge ∈ dependencies,
        graph.files.idxOf? edge.source = some v ∧ graph.files.idxOf? edge.target = some w := by
  induction dependencies generalizing graph with
  | nil => simp
  | cons dependency dependencies ih =>
    rw [List.foldl_cons, ih, mem_edges_addEdge_iff, files_addEdge, List.exists_mem_cons_iff, or_assoc]

/-! ## The whole graph -/

/-- The graph has the given files in the order of their first occurrence. -/
lemma files_ofDependencies (files : List String) (dependencies : List Dependency) :
    (ofDependencies files dependencies).files = files.eraseDups := by
  rw [ofDependencies, files_foldl_addEdge]
  exact files_ofFiles files

/-- The graph has no other file than the given ones, and has all of these. -/
lemma mem_files_ofDependencies {file : String} :
    file ∈ (ofDependencies files dependencies).files ↔ file ∈ files := by
  rw [files_ofDependencies, List.mem_eraseDups]

/-- The numbers of the files follow their first occurrences. -/
lemma idxOf_get_le_iff {v w : Fin (ofDependencies files dependencies).files.length} :
    files.idxOf ((ofDependencies files dependencies).files.get v) ≤
      files.idxOf ((ofDependencies files dependencies).files.get w) ↔ v ≤ w := by
  have hordered : (ofDependencies files dependencies).files.Pairwise
      fun a b => files.idxOf a < files.idxOf b := by
    rw [files_ofDependencies]
    exact pairwise_idxOf_eraseDups files
  have hmono : StrictMono fun v => files.idxOf ((ofDependencies files dependencies).files.get v) :=
    fun v w hvw => List.pairwise_iff_get.1 hordered v w hvw
  exact hmono.le_iff_le

/-- In a list without repetitions an element is found at its only position. -/
lemma idxOf?_eq_some_iff_get {l : List String} (hl : l.Nodup) {a : String} {v : Fin l.length} :
    l.idxOf? a = some v.val ↔ a = l.get v := by
  rw [List.idxOf?_eq_some_iff]
  constructor
  · rintro ⟨_, hget, -⟩
    exact hget.symm
  · intro hget
    refine ⟨v.isLt, hget.symm, fun j hj hjget => ?_⟩
    have hjv : j = v.val := (hl.getElem_inj_iff).1 (hjget.trans hget)
    omega

/-- The edges of the graph are those of the dependencies whose ends are known. -/
lemma mem_edges_ofDependencies_iff {v w : ℕ} :
    (v, w) ∈ (ofDependencies files dependencies).edges ↔ ∃ edge ∈ dependencies,
      (ofDependencies files dependencies).files.idxOf? edge.source = some v ∧
        (ofDependencies files dependencies).files.idxOf? edge.target = some w := by
  have hfiles : (ofDependencies files dependencies).files = (ofFiles files).files :=
    files_foldl_addEdge (ofFiles files) dependencies
  have hedges := mem_edges_foldl_addEdge_iff (ofFiles files) dependencies v w
  rw [edges_ofFiles, ← hfiles] at hedges
  simp only [List.not_mem_nil, false_or] at hedges
  exact hedges

/-- **The edges of the graph.**  Two files are linked exactly if a dependency leads from one to the
other. -/
lemma edge_toDigraph_iff {v w : Fin (ofDependencies files dependencies).files.length} :
    (ofDependencies files dependencies).toDigraph.Edge v w ↔
      DependencyGraph.linked dependencies ((ofDependencies files dependencies).files.get v)
        ((ofDependencies files dependencies).files.get w) = true := by
  have hnodup := (ofDependencies files dependencies).nodup_files
  rw [toDigraph, Digraph.edge_ofEdges_iff, mem_edges_ofDependencies_iff, DependencyGraph.linked,
    List.any_eq_true]
  simp only [idxOf?_eq_some_iff_get hnodup, Bool.and_eq_true, beq_iff_eq]

/-- The graph on the numbers of files lists the successors of each file in ascending order. -/
lemma pairwise_successors (graph : FileGraph) (v : Fin graph.files.length) :
    (graph.toDigraph.successors v).Pairwise (· < ·) :=
  Digraph.pairwise_successors_ofEdges graph.nodup_edges v

/-! ## Runs -/

/-- What is done to a graph: a file is added, or an edge. -/
inductive Action
  | addNode (file : String)
  | addEdge (source target : String)

/-- The graph after one action. -/
def act (graph : FileGraph) : Action → FileGraph
  | .addNode file => (graph.addNode file).1
  | .addEdge source target => (graph.addEdge source target).1

/-- The graph after some actions, one after another. -/
def run (actions : List Action) : FileGraph :=
  actions.foldl act empty

end FileGraph

end CppDeps
