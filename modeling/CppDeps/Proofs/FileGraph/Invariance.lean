import CppDeps.Proofs.FileGraph.Construction

/-!
# What a report on cycles depends on

The search for cycles works on numbers and on ascending lists of successors.  Neither shows in which
order the dependencies were given, how often one was given, or why: the graph that is searched is the
same whenever the same known files are linked (`Digraph.ofEdges_congr`).  So the whole report is the
same, also where a cap on the number of cycles cuts it short (`FileGraph.findCycles_congr`).
-/

namespace CppDeps

namespace Digraph

variable {n : ℕ}

/-- A graph is determined by the successors of its nodes. -/
lemma ext_successors {g g' : Digraph n} (h : ∀ v, g.successors v = g'.successors v) : g = g' := by
  obtain ⟨next⟩ := g
  obtain ⟨next'⟩ := g'
  have hnext : next = next' := by
    apply Vector.ext
    intro i hi
    have hi' : next.get ⟨i, hi⟩ = next'.get ⟨i, hi⟩ := h ⟨i, hi⟩
    exact hi'
  rw [hnext]

/-- The graph of a list of different edges is the same for every such list with the same edges between
nodes. -/
lemma ofEdges_congr {edges edges' : List (ℕ × ℕ)} (hnodup : edges.Nodup) (hnodup' : edges'.Nodup)
    (h : ∀ v w : Fin n, (v.val, w.val) ∈ edges ↔ (v.val, w.val) ∈ edges') :
    (ofEdges edges : Digraph n) = ofEdges edges' := by
  apply ext_successors
  intro v
  have hmem : ∀ w, w ∈ (ofEdges edges : Digraph n).successors v ↔
      w ∈ (ofEdges edges' : Digraph n).successors v := by
    intro w
    have hedge : (ofEdges edges : Digraph n).Edge v w ↔ (ofEdges edges' : Digraph n).Edge v w := by
      rw [edge_ofEdges_iff, edge_ofEdges_iff]
      exact h v w
    exact hedge
  have hascending := pairwise_successors_ofEdges hnodup v
  have hascending' := pairwise_successors_ofEdges hnodup' v
  exact hascending.eq_of_mem_iff hascending' hmem

end Digraph

namespace FileGraph

variable {files files' : List String} {dependencies dependencies' : List Dependency}

/-- The links between known files: the two ends of each dependency both of whose ends are among the
files. -/
def knownLinks (files : List String) (dependencies : List Dependency) : Finset (String × String) :=
  ((dependencies.map fun edge => (edge.source, edge.target)).filter fun link =>
    link.1 ∈ files ∧ link.2 ∈ files).toFinset

/-- A link between known files is a pair of files that a dependency names. -/
lemma mem_knownLinks_iff {source target : String} :
    (source, target) ∈ knownLinks files dependencies ↔
      (source ∈ files ∧ target ∈ files) ∧
        ∃ edge ∈ dependencies, edge.source = source ∧ edge.target = target := by
  unfold knownLinks
  rw [List.mem_toFinset, List.mem_filter, List.mem_map, decide_eq_true_iff, and_comm]
  simp only [Prod.mk.injEq]

/-- The edges of the graph are the links between known files, by the numbers of the files. -/
lemma mem_edges_iff_exists_link {v w : ℕ} :
    (v, w) ∈ (ofDependencies files dependencies).edges ↔
      ∃ link ∈ knownLinks files dependencies,
        (ofDependencies files dependencies).files.idxOf? link.1 = some v ∧
          (ofDependencies files dependencies).files.idxOf? link.2 = some w := by
  have hknown : ∀ {file i}, (ofDependencies files dependencies).files.idxOf? file = some i →
      file ∈ files := by
    intro file i hfile
    apply mem_files_ofDependencies.1
    exact List.isSome_idxOf?.1 (Option.isSome_iff_exists.2 ⟨i, hfile⟩)
  rw [mem_edges_ofDependencies_iff]
  constructor
  · rintro ⟨edge, hedge, hsource, htarget⟩
    have hlink : (edge.source, edge.target) ∈ knownLinks files dependencies :=
      mem_knownLinks_iff.2 ⟨⟨hknown hsource, hknown htarget⟩, edge, hedge, rfl, rfl⟩
    exact ⟨_, hlink, hsource, htarget⟩
  · rintro ⟨⟨source, target⟩, hlink, hsource, htarget⟩
    obtain ⟨-, edge, hedge, rfl, rfl⟩ := mem_knownLinks_iff.1 hlink
    exact ⟨edge, hedge, hsource, htarget⟩

/-- Graphs on the same files give the same report, if they have the same edges. -/
lemma findCycles_eq_of_edges {graph graph' : FileGraph} (hfiles : graph.files = graph'.files)
    (hsame : ∀ v w, (v, w) ∈ graph.edges ↔ (v, w) ∈ graph'.edges) (limits : CycleLimits) :
    graph.findCycles limits = graph'.findCycles limits := by
  obtain ⟨files, edges, hnodup, hedges⟩ := graph
  obtain ⟨files', edges', hnodup', hedges'⟩ := graph'
  obtain rfl : files = files' := hfiles
  have hgraph : (Digraph.ofEdges edges : Digraph files.length) = Digraph.ofEdges edges' :=
    Digraph.ofEdges_congr hedges hedges' fun v w => hsame v.val w.val
  unfold findCycles toDigraph
  rw [hgraph]

/-- **The report depends only on which known files are linked.**  Two lists of dependencies that link
the same files in the same directions give the same report, with the same cycles in the same order and
cut short alike, whatever the order, number, reasons and lines of the dependencies and whatever other
files they name; and so do two lists of files that name the same files in the order of their first
occurrence, however often a file is repeated after that. -/
theorem findCycles_congr (hfiles : files.eraseDups = files'.eraseDups)
    (hlinks : knownLinks files dependencies = knownLinks files dependencies')
    (limits : CycleLimits) :
    (ofDependencies files dependencies).findCycles limits =
      (ofDependencies files' dependencies').findCycles limits := by
  have hsame : (ofDependencies files dependencies).files =
      (ofDependencies files' dependencies').files := by
    rw [files_ofDependencies, files_ofDependencies, hfiles]
  have hmem : ∀ file, file ∈ files ↔ file ∈ files' := by
    intro file
    rw [← List.mem_eraseDups, hfiles, List.mem_eraseDups]
  have hlinks' : knownLinks files dependencies = knownLinks files' dependencies' := by
    rw [hlinks]
    unfold knownLinks
    simp only [hmem]
  apply findCycles_eq_of_edges hsame
  intro v w
  rw [mem_edges_iff_exists_link, mem_edges_iff_exists_link, hsame, hlinks']

/-- Of three cycles only two are reported under a cap; which two does not show how the dependencies were
listed. -/
theorem findCycles_congr_capped :
    let files := ["a.h", "b.h", "c.h"]
    let dependencies : List Dependency :=
      [⟨"a.h", "b.h", .includes, some 1⟩, ⟨"b.h", "a.h", .includes, some 2⟩,
        ⟨"b.h", "c.h", .calls, none⟩, ⟨"c.h", "b.h", .includes, some 1⟩,
        ⟨"c.h", "a.h", .calls, none⟩]
    let repeated := ["a.h", "b.h", "a.h", "c.h", "b.h"]
    let shuffled : List Dependency :=
      [⟨"c.h", "a.h", .includes, some 7⟩, ⟨"c.h", "b.h", .calls, none⟩,
        ⟨"a.h", "gone.h", .calls, none⟩, ⟨"b.h", "c.h", .includes, some 3⟩,
        ⟨"b.h", "a.h", .calls, none⟩, ⟨"c.h", "b.h", .includes, some 4⟩,
        ⟨"a.h", "b.h", .calls, none⟩]
    let limits := CycleLimits.unbounded.withMaxCycles 2
    files.eraseDups = repeated.eraseDups ∧
      knownLinks files dependencies = knownLinks files shuffled ∧
      (ofDependencies repeated shuffled).findCycles limits =
        (ofDependencies files dependencies).findCycles limits := by
  have hfiles : ["a.h", "b.h", "c.h"].eraseDups = ["a.h", "b.h", "a.h", "c.h", "b.h"].eraseDups := by
    decide +kernel
  refine ⟨hfiles, by decide +kernel, ?_⟩
  exact (findCycles_congr hfiles (by decide +kernel) _).symm

end FileGraph

end CppDeps
