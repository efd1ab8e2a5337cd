import CppDeps.DependencyGraph
import CppDeps.Proofs.SymbolIndex.Definitions

/-!
# The edges of a pass

A pass goes through all files with one list of edges and adds to it what each file gives rise to.  Since
a file only adds edges that leave it, what the list holds from other files never matters: the outcome
is the edges of each file, computed from the index alone (`DependencyGraph.edgesOf`), one file after
another (`DependencyGraph.analyze_run`).
-/

namespace CppDeps

namespace DependencyGraph

variable {index : SymbolIndex} {history : List (String × FileSymbols)} {edges : List Dependency}
  {file : String × FileSymbols}

/-! ## Runs -/

/-- What is done to a graph: a file is added, or all edges are computed anew. -/
inductive Action
  | addFile (path : String) (symbols : FileSymbols)
  | analyze

/-- The graph after one action. -/
def act (graph : DependencyGraph) : Action → DependencyGraph
  | .addFile path symbols => graph.addFile path symbols
  | .analyze => graph.analyze

/-- The graph after some actions, one after another. -/
def run (actions : List Action) : DependencyGraph :=
  actions.foldl act empty

/-- The file that an action adds. -/
def Action.added? : Action → Option (String × FileSymbols)
  | .addFile path symbols => some (path, symbols)
  | .analyze => none

/-- The index after some actions is that of the files added. -/
lemma index_run (actions : List Action) :
    (run actions).index = SymbolIndex.ofHistory (actions.filterMap Action.added?) := by
  induction actions using List.reverseRecOn with
  | nil => rfl
  | append_singleton actions action ih =>
    rw [run, List.foldl_append, ← run, List.filterMap_append, SymbolIndex.ofHistory,
      List.foldl_append, ← SymbolIndex.ofHistory, ← ih]
    cases action <;> rfl

/-- The index after some actions tracks the additions among them. -/
lemma tracks_run (actions : List Action) :
    (run actions).index.Tracks (actions.filterMap Action.added?) := by
  rw [index_run]
  exact SymbolIndex.tracks_ofHistory _

/-- The files after some actions are those added, in the order of their first additions. -/
lemma filePaths_run (actions : List Action) :
    (run actions).index.filePaths =
      ((actions.filterMap Action.added?).map Prod.fst).eraseDups := by
  rw [index_run, SymbolIndex.filePaths_ofHistory]

/-! ## The edges of one file -/

/-- The edges of the include directives of a file that mean a known file. -/
def includeEdges (index : SymbolIndex) (file : String × FileSymbols) : List Dependency :=
  file.2.includes.filterMap fun directive =>
    (index.resolveInclude directive.path file.1).map fun target =>
      ⟨file.1, target, .includes, some directive.line⟩

/-- The files that a file includes, one for each edge. -/
def includeTargets (index : SymbolIndex) (file : String × FileSymbols) : List String :=
  (includeEdges index file).map Dependency.target

/-- The edge of a call. -/
def callEdge (source target : String) : Dependency :=
  ⟨source, target, .calls, none⟩

/-- The files that a file calls into and does not include, other than itself, each once: in the order
of the called names, and for each name in the order of its definitions. -/
def callTargets (index : SymbolIndex) (file : String × FileSymbols) : List String :=
  ((file.2.calledNames.toList.flatMap fun name => (index.definitions name).map Location.file).filter
    fun target => decide (target ≠ file.1 ∧ target ∉ includeTargets index file)).eraseDups

/-- The edges that leave a file: those of its include directives in their order, then those of its
calls. -/
def edgesOf (index : SymbolIndex) (file : String × FileSymbols) : List Dependency :=
  includeEdges index file ++ (callTargets index file).map (callEdge file.1)

/-- The edges of the include directives of a file leave it. -/
lemma of_mem_includeEdges {edge : Dependency} (h : edge ∈ includeEdges index file) :
    edge.source = file.1 ∧ edge.reason = .includes := by
  obtain ⟨directive, -, hedge⟩ := List.mem_filterMap.1 h
  obtain ⟨target, -, rfl⟩ := Option.map_eq_some_iff.1 hedge
  exact ⟨rfl, rfl⟩

/-- The edges of a file leave it. -/
lemma source_of_mem_edgesOf {edge : Dependency} (h : edge ∈ edgesOf index file) :
    edge.source = file.1 := by
  rcases List.mem_append.1 h with h | h
  · exact (of_mem_includeEdges h).1
  · obtain ⟨target, -, rfl⟩ := List.mem_map.1 h
    rfl

/-- A file calls into those files that define a name it calls, less itself and those it includes. -/
lemma mem_callTargets_iff (h : index.Tracks history) {target : String} :
    target ∈ callTargets index file ↔
      target ≠ file.1 ∧ target ∉ includeTargets index file ∧
        ∃ stored, index.file? target = some stored ∧
          ∃ name ∈ file.2.calledNames, stored.Defines name := by
  unfold callTargets
  rw [List.mem_eraseDups, List.mem_filter, decide_eq_true_iff, List.mem_flatMap]
  simp only [h.mem_map_file_definitions_iff]
  constructor
  · rintro ⟨⟨name, hname, stored, hstored, hdefines⟩, hself, hincluded⟩
    exact ⟨hself, hincluded, stored, hstored, name, hname, hdefines⟩
  · rintro ⟨hself, hincluded, stored, hstored, name, hname, hdefines⟩
    exact ⟨⟨name, hname, stored, hstored, hdefines⟩, hself, hincluded⟩

/-! ## The pass over one file -/

/-- Two files are linked by the edges of a list if one of its edges leads from one to the other. -/
lemma linked_iff {source target : String} :
    linked edges source target = true ↔
      ∃ edge ∈ edges, edge.source = source ∧ edge.target = target := by
  simp only [linked, List.any_eq_true, Bool.and_eq_true, beq_iff_eq]

/-- Edges of calls link a file to the files called. -/
lemma linked_append_callEdge_iff {source target : String} {targets : List String} :
    linked (edges ++ targets.map (callEdge source)) source target = true ↔
      linked edges source target = true ∨ target ∈ targets := by
  rw [linked, List.any_append, Bool.or_eq_true, ← linked, ← linked,
    @linked_iff (targets.map (callEdge source))]
  refine or_congr Iff.rfl ⟨?_, fun htarget => ?_⟩
  · rintro ⟨edge, hedge, -, rfl⟩
    obtain ⟨target', htarget', rfl⟩ := List.mem_map.1 hedge
    exact htarget'
  · exact ⟨callEdge source target, List.mem_map_of_mem htarget, rfl, rfl⟩

/-- The include directives of a file add their edges. -/
lemma foldl_addInclude (index : SymbolIndex) (source : String) (edges : List Dependency)
    (directives : List Include) :
    directives.foldl (addInclude index source) edges =
      edges ++ directives.filterMap fun directive =>
        (index.resolveInclude directive.path source).map fun target =>
          ⟨source, target, .includes, some directive.line⟩ := by
  induction directives generalizing edges with
  | nil => exact (List.append_nil edges).symm
  | cons directive directives ih =>
    rw [List.foldl_cons, ih, addInclude, List.filterMap_cons]
    rcases index.resolveInclude directive.path source with _ | target
    · rfl
    · exact List.append_assoc _ _ _

/-- Calls into one file after another add an edge for each file that was not linked before, at its
first occurrence. -/
lemma foldl_addCall (source : String) (edges : List Dependency) (targets : List String) :
    targets.foldl (addCall source) edges =
      edges ++ ((targets.filter fun target =>
        decide (target ≠ source ∧ ¬ linked edges source target = true)).eraseDups).map
          (callEdge source) := by
  induction targets using List.reverseRecOn with
  | nil => exact (List.append_nil edges).symm
  | append_singleton targets target ih =>
    rw [List.foldl_append, List.foldl_cons, List.foldl_nil, ih, addCall, List.filter_append,
      List.filter_cons, List.filter_nil]
    set fresh := targets.filter fun target =>
      decide (target ≠ source ∧ ¬ linked edges source target = true) with hfresh
    have hlinked : linked (edges ++ fresh.eraseDups.map (callEdge source)) source target = true ↔
        linked edges source target = true ∨ target ∈ fresh := by
      rw [linked_append_callEdge_iff, List.mem_eraseDups]
    by_cases hskip : target = source ∨ linked edges source target = true
    · have hout : ¬ decide (target ≠ source ∧ ¬ linked edges source target = true) = true := by
        rw [decide_eq_true_iff, ← not_or]
        exact not_not.2 hskip
      rw [if_neg hout, List.append_nil, if_pos (hskip.imp_right fun h => hlinked.2 (Or.inl h))]
    · have hin : decide (target ≠ source ∧ ¬ linked edges source target = true) = true :=
        decide_eq_true (not_or.1 hskip)
      rw [if_pos hin, eraseDups_concat]
      by_cases hold : target ∈ fresh
      · rw [if_pos hold, if_pos (Or.inr (hlinked.2 (Or.inr hold)))]
      · have hnew : ¬ (target = source ∨
            linked (edges ++ fresh.eraseDups.map (callEdge source)) source target = true) := by
          rw [hlinked, ← or_assoc, not_or]
          exact ⟨hskip, hold⟩
        rw [if_neg hold, if_neg hnew, List.map_append, List.append_assoc]
        rfl

/-- **What the pass does at one file.**  The edges of the file are added, provided that no edge leaves
it yet. -/
lemma addEdgesOf_eq (h : index.Tracks history) (hnew : ∀ edge ∈ edges, edge.source ≠ file.1) :
    addEdgesOf index edges file = edges ++ edgesOf index file := by
  have hcalls : ∀ edges', file.2.calledNames.toList.foldl (addCalls index file.1) edges' =
      (file.2.calledNames.toList.flatMap fun name =>
        (index.definitions name).map Location.file).foldl (addCall file.1) edges' := by
    intro edges'
    rw [List.foldl_flatMap]
    refine List.foldl_ext _ _ _ fun edges'' name _ => ?_
    rw [addCalls, h.map_fst_resolveCallers]
  have hlinked : ∀ target, linked (edges ++ includeEdges index file) file.1 target = true ↔
      target ∈ includeTargets index file := by
    intro target
    rw [linked_iff, includeTargets, List.mem_map]
    constructor
    · rintro ⟨edge, hedge, hsource, htarget⟩
      exact ⟨edge, (List.mem_append.1 hedge).resolve_left fun hold => hnew edge hold hsource, htarget⟩
    · rintro ⟨edge, hedge, htarget⟩
      exact ⟨edge, List.mem_append_right _ hedge, (of_mem_includeEdges hedge).1, htarget⟩
  rw [addEdgesOf, foldl_addInclude, hcalls, foldl_addCall, ← includeEdges, List.append_assoc]
  simp only [hlinked]
  rfl

/-! ## The pass over all files -/

/-- Different files add their edges one after another. -/
lemma foldl_addEdgesOf (h : index.Tracks history) (files : List (String × FileSymbols))
    (hnodup : (files.map Prod.fst).Nodup)
    (hnew : ∀ edge ∈ edges, ∀ file ∈ files, edge.source ≠ file.1) :
    files.foldl (addEdgesOf index) edges = edges ++ files.flatMap (edgesOf index) := by
  induction files generalizing edges with
  | nil => exact (List.append_nil edges).symm
  | cons file files ih =>
    rw [List.map_cons, List.nodup_cons] at hnodup
    rw [List.foldl_cons, addEdgesOf_eq h fun edge hedge => hnew edge hedge file List.mem_cons_self]
    have hrest : ∀ edge ∈ edges ++ edgesOf index file, ∀ file' ∈ files, edge.source ≠ file'.1 := by
      intro edge hedge file' hfile'
      rcases List.mem_append.1 hedge with hedge | hedge
      · exact hnew edge hedge file' (List.mem_cons_of_mem file hfile')
      · intro hsource
        rw [source_of_mem_edgesOf hedge] at hsource
        exact hnodup.1 (hsource ▸ List.mem_map_of_mem hfile')
    rw [ih hnodup.2 hrest, List.append_assoc, List.flatMap_cons]

/-- The pass finds the edges of the files, one file after another. -/
lemma dependencies_analyze {graph : DependencyGraph} (h : graph.index.Tracks history) :
    graph.analyze.dependencies = graph.files.flatMap (edgesOf graph.index) := by
  have hpass := @foldl_addEdgesOf graph.index history [] h graph.files graph.index.files.nodup
    fun edge hedge => absurd hedge List.not_mem_nil
  exact hpass

/-- The edges that leave a file after the pass are those of the file. -/
lemma filter_source_dependencies {graph : DependencyGraph} (h : graph.index.Tracks history)
    (hfile : file ∈ graph.files) :
    graph.analyze.dependencies.filter (fun edge => edge.source == file.1) =
      edgesOf graph.index file := by
  have hgroup : ∀ other, ∀ edge ∈ edgesOf graph.index other,
      (edge.source == file.1) = (other.1 == file.1) := by
    intro other edge hedge
    rw [source_of_mem_edgesOf hedge]
  rw [dependencies_analyze h, filter_flatMap_of_forall hgroup]
  have hone : graph.files.filter (fun other => other.1 == file.1) = [file] :=
    filter_fst_eq_singleton graph.index.files.nodup hfile
  rw [hone, List.flatMap_singleton]

/-- Of the edges of a file, only the edge of a call leads to the file called. -/
lemma filter_target_edgesOf {target : String} (htarget : target ∈ callTargets index file) :
    (edgesOf index file).filter (fun edge => edge.target == target) =
      [callEdge file.1 target] := by
  have hincluded : target ∉ includeTargets index file := by
    have hkept := (List.mem_filter.1 (List.mem_eraseDups.1 htarget)).2
    exact (of_decide_eq_true hkept).2
  have hincludes : (includeEdges index file).filter (fun edge => edge.target == target) = [] := by
    refine List.filter_eq_nil_iff.2 fun edge hedge hparallel => hincluded ?_
    exact List.mem_map.2 ⟨edge, hedge, beq_iff_eq.1 hparallel⟩
  have hdistinct : (callTargets index file).Nodup := nodup_eraseDups _
  have hone : (callTargets index file).filter (fun target' => target' == target) = [target] := by
    rw [List.filter_beq, List.count_eq_one_of_mem hdistinct htarget]
    rfl
  have hcalls : ((callTargets index file).map (callEdge file.1)).filter
      (fun edge => edge.target == target) = [callEdge file.1 target] := by
    rw [List.filter_map]
    exact congrArg (List.map (callEdge file.1)) hone
  rw [edgesOf, List.filter_append, hincludes, hcalls, List.nil_append]

/-- The edge of a call leads to another file, and no edge runs parallel to it. -/
lemma filter_parallel_of_calls {graph : DependencyGraph} (h : graph.index.Tracks history)
    {edge : Dependency} (hedge : edge ∈ graph.analyze.dependencies) (hcall : edge.reason = .calls) :
    edge.source ≠ edge.target ∧
      graph.analyze.dependencies.filter
        (fun other => other.source == edge.source && other.target == edge.target) = [edge] := by
  rw [dependencies_analyze h] at hedge
  obtain ⟨file, hfile, hedge⟩ := List.mem_flatMap.1 hedge
  rcases List.mem_append.1 hedge with hedge | hedge
  · rw [(of_mem_includeEdges hedge).2] at hcall
    exact absurd hcall (by decide)
  · obtain ⟨target, htarget, rfl⟩ := List.mem_map.1 hedge
    have hparallel : graph.analyze.dependencies.filter
        (fun other => other.source == file.1 && other.target == target) =
          [callEdge file.1 target] := by
      rw [← filter_target_edgesOf htarget, ← filter_source_dependencies h hfile, List.filter_filter]
      simp only [Bool.and_comm]
    exact ⟨((mem_callTargets_iff h).1 htarget).1.symm, hparallel⟩

/-- A file is linked to every other file that defines a name it calls. -/
lemma linked_of_defines {graph : DependencyGraph} (h : graph.index.Tracks history)
    (hfile : file ∈ graph.files) {target : String} {stored : FileSymbols}
    (hstored : graph.index.file? target = some stored) (hself : target ≠ file.1)
    (hdefines : ∃ name ∈ file.2.calledNames, stored.Defines name) :
    linked graph.analyze.dependencies file.1 target = true := by
  have hall : ∀ edge ∈ edgesOf graph.index file, edge ∈ graph.analyze.dependencies := by
    intro edge hedge
    rw [dependencies_analyze h]
    exact List.mem_flatMap.2 ⟨file, hfile, hedge⟩
  rw [linked_iff]
  by_cases hincluded : target ∈ includeTargets graph.index file
  · obtain ⟨edge, hedge, htarget⟩ := List.mem_map.1 hincluded
    exact ⟨edge, hall edge (List.mem_append_left _ hedge), (of_mem_includeEdges hedge).1, htarget⟩
  · have hcalled := (mem_callTargets_iff h).2 ⟨hself, hincluded, stored, hstored, hdefines⟩
    have hedge : callEdge file.1 target ∈ edgesOf graph.index file :=
      List.mem_append_right _ (List.mem_map_of_mem hcalled)
    exact ⟨callEdge file.1 target, hall _ hedge, rfl, rfl⟩

/-- **The edges after a pass.**  After any additions and passes, one more pass finds for each file, in
the order of their first additions, the edges of the include directives that mean a known file, in the
order of the directives, and then one edge for each other file that defines a called name and is not
included.  So no edge of a call leads from a file to itself or runs parallel to another edge, and every
file that defines a called name is linked to its caller. -/
theorem analyze_run (actions : List Action) :
    let graph := run actions
    graph.analyze.dependencies = graph.files.flatMap (edgesOf graph.index) ∧
    graph.files.map Prod.fst = ((actions.filterMap Action.added?).map Prod.fst).eraseDups ∧
    (∀ file ∈ graph.files, (callTargets graph.index file).Nodup ∧ ∀ target,
      target ∈ callTargets graph.index file ↔
        target ≠ file.1 ∧ target ∉ includeTargets graph.index file ∧
          ∃ stored, graph.index.file? target = some stored ∧
            ∃ name ∈ file.2.calledNames, stored.Defines name) ∧
    (∀ edge ∈ graph.analyze.dependencies, edge.reason = .calls →
      edge.source ≠ edge.target ∧
        graph.analyze.dependencies.filter
          (fun other => other.source == edge.source && other.target == edge.target) = [edge]) ∧
    ∀ file ∈ graph.files, ∀ target stored, graph.index.file? target = some stored →
      target ≠ file.1 → (∃ name ∈ file.2.calledNames, stored.Defines name) →
        linked graph.analyze.dependencies file.1 target = true := by
  intro graph
  have h : graph.index.Tracks (actions.filterMap Action.added?) := by
    rw [show graph.index = _ from index_run actions]
    exact SymbolIndex.tracks_ofHistory _
  refine ⟨dependencies_analyze h, ?_,
    fun file _ => ⟨nodup_eraseDups _, fun target => mem_callTargets_iff h⟩,
    fun edge hedge hcall => filter_parallel_of_calls h hedge hcall,
    fun file hfile target stored hstored hself hdefines =>
      linked_of_defines h hfile hstored hself hdefines⟩
  rw [← SymbolIndex.filePaths_ofHistory, ← index_run]
  rfl

end DependencyGraph

end CppDeps
