import CppDeps.Proofs.DependencyGraph.Edges
import CppDeps.Proofs.SymbolIndex.Includes
import Mathlib.Data.List.Forall2

/-!
# What one file can change

Two runs add the same paths in the same order, and the same symbols under all paths but one.  Since an
include path means a file that is told from the paths alone, the include directives of the other files
lead to the same files in both runs.  The definitions of a name are the same in both runs, in the same
order, but for those in the one file, which may stand anywhere between the others.  So all that can
differ is the edges that leave the file and the edges of calls into it.
-/

namespace CppDeps

/-! ## Additions that agree off one path -/

/-- Two lists of files have the same paths in the same order, with the same symbols under all paths but
one. -/
def AgreeOff (path : String) : List (String × FileSymbols) → List (String × FileSymbols) → Prop :=
  List.Forall₂ fun file file' => file.1 = file'.1 ∧ (file.1 ≠ path → file.2 = file'.2)

namespace AgreeOff

variable {path : String} {files files' history history' : List (String × FileSymbols)}

/-- The paths are the same. -/
lemma map_fst_eq (h : AgreeOff path files files') : files.map Prod.fst = files'.map Prod.fst := by
  induction h with
  | nil => rfl
  | cons hfile _ ih => rw [List.map_cons, List.map_cons, hfile.1, ih]

/-- The other files are the same. -/
lemma filter_ne_eq (h : AgreeOff path files files') :
    (files.filter fun file => file.1 != path) = files'.filter fun file => file.1 != path := by
  induction h with
  | nil => rfl
  | @cons file file' files files' hfile _ ih =>
    obtain ⟨hpath, hsymbols⟩ := hfile
    rw [List.filter_cons, List.filter_cons, ← hpath, ih]
    by_cases hother : file.1 = path
    · have hout : ¬ (file.1 != path) = true := by simp [hother]
      rw [if_neg hout, if_neg hout]
    · rw [Prod.ext hpath (hsymbols hother)]

/-- The latest additions agree as well. -/
lemma latest (h : AgreeOff path history history') :
    AgreeOff path (SymbolIndex.latest history) (SymbolIndex.latest history') := by
  induction h with
  | nil => exact List.Forall₂.nil
  | cons hadded hlater ih =>
    have hpaths := map_fst_eq hlater
    rw [SymbolIndex.latest, SymbolIndex.latest, ← hadded.1, ← hpaths]
    split
    · exact ih
    · exact List.Forall₂.cons hadded ih

/-- Entries that agree still do after one more file is put into both. -/
lemma put (h : AgreeOff path files files') {added : String} {symbols symbols' : FileSymbols}
    (hsymbols : added ≠ path → symbols = symbols') :
    AgreeOff path (Table.put added symbols files) (Table.put added symbols' files') := by
  induction h with
  | nil => exact List.Forall₂.cons ⟨rfl, hsymbols⟩ List.Forall₂.nil
  | @cons file file' files files' hfile hrest ih =>
    rw [Table.put, Table.put, ← hfile.1]
    split
    · exact List.Forall₂.cons ⟨rfl, hsymbols⟩ hrest
    · exact List.Forall₂.cons hfile ih

/-- Indexes whose files agree still do after one more file is added to both. -/
lemma addFile {index index' : SymbolIndex}
    (h : AgreeOff path index.files.entries index'.files.entries)
    {added : String} {symbols symbols' : FileSymbols} (hsymbols : added ≠ path → symbols = symbols') :
    AgreeOff path (index.addFile added symbols).files.entries
      (index'.addFile added symbols').files.entries :=
  h.put fun hne => by rw [hsymbols hne]

/-- Indexes of additions that agree have files that agree. -/
lemma entries_ofHistory (h : AgreeOff path history history') :
    AgreeOff path (SymbolIndex.ofHistory history).files.entries
      (SymbolIndex.ofHistory history').files.entries := by
  -- the two indexes grow together, from any two whose files agree
  have hadd : ∀ {index index' : SymbolIndex},
      AgreeOff path index.files.entries index'.files.entries → AgreeOff path
        (history.foldl (fun index added => index.addFile added.1 added.2) index).files.entries
        (history'.foldl (fun index added => index.addFile added.1 added.2) index').files.entries := by
    induction h with
    | nil => exact id
    | @cons added added' history history' hadded _ ih =>
      intro index index' hentries
      obtain ⟨path', symbols⟩ := added
      obtain ⟨path'', symbols'⟩ := added'
      obtain rfl : path' = path'' := hadded.1
      exact ih (hentries.addFile hadded.2)
  exact hadd List.Forall₂.nil

end AgreeOff

/-- The edges that a file can change: those that leave it, and those of calls into it. -/
def Dependency.InfluencedBy (path : String) (edge : Dependency) : Prop :=
  edge.source = path ∨ edge.reason = .calls ∧ edge.target = path

instance (path : String) : DecidablePred (Dependency.InfluencedBy path) := fun edge =>
  inferInstanceAs (Decidable (edge.source = path ∨ edge.reason = .calls ∧ edge.target = path))

namespace DependencyGraph

variable {path : String} {history history' : List (String × FileSymbols)}

/-! ## The edges of the other files -/

/-- Include directives lead to the same files. -/
lemma includeEdges_eq_of_agreeOff (h : AgreeOff path history history') (file : String × FileSymbols) :
    includeEdges (SymbolIndex.ofHistory history) file =
      includeEdges (SymbolIndex.ofHistory history') file := by
  simp only [includeEdges, SymbolIndex.resolveInclude_ofHistory_eq, h.map_fst_eq]

/-- The definitions of a name in the other files are the same, in the same order. -/
lemma filter_definitions_eq_of_agreeOff (h : AgreeOff path history history') (name : String) :
    ((SymbolIndex.ofHistory history).definitions name).filter (fun location => location.file != path) =
      ((SymbolIndex.ofHistory history').definitions name).filter
        fun location => location.file != path := by
  have hgroup : ∀ file, ∀ location ∈ SymbolIndex.placesOf name file,
      (location.file != path) = (file.1 != path) := by
    intro file location hlocation
    rw [(SymbolIndex.mem_placesOf_iff.1 hlocation).1]
  rw [(SymbolIndex.tracks_ofHistory history).definitions_eq,
    (SymbolIndex.tracks_ofHistory history').definitions_eq, filter_flatMap_of_forall hgroup,
    filter_flatMap_of_forall hgroup, h.latest.filter_ne_eq]

/-- A file calls into the same other files, in the same order. -/
lemma filter_callTargets_eq_of_agreeOff (h : AgreeOff path history history')
    (file : String × FileSymbols) :
    (callTargets (SymbolIndex.ofHistory history) file).filter (· != path) =
      (callTargets (SymbolIndex.ofHistory history') file).filter (· != path) := by
  have hcalled : (file.2.calledNames.toList.flatMap fun name =>
        ((SymbolIndex.ofHistory history).definitions name).map Location.file).filter (· != path) =
      (file.2.calledNames.toList.flatMap fun name =>
        ((SymbolIndex.ofHistory history').definitions name).map Location.file).filter (· != path) := by
    rw [List.filter_flatMap, List.filter_flatMap]
    refine List.flatMap_congr fun name _ => ?_
    rw [List.filter_map, List.filter_map]
    exact congrArg (List.map Location.file) (filter_definitions_eq_of_agreeOff h name)
  rw [callTargets, callTargets, includeTargets, includeTargets, includeEdges_eq_of_agreeOff h,
    filter_eraseDups, filter_eraseDups, List.filter_comm, hcalled, List.filter_comm]

/-- The edges of a file that another file cannot change are the same. -/
lemma filter_edgesOf_eq_of_agreeOff (h : AgreeOff path history history')
    (file : String × FileSymbols) :
    (edgesOf (SymbolIndex.ofHistory history) file).filter (fun edge => ¬ edge.InfluencedBy path) =
      (edgesOf (SymbolIndex.ofHistory history') file).filter
        fun edge => ¬ edge.InfluencedBy path := by
  have hcalls :
      ((callTargets (SymbolIndex.ofHistory history) file).map (callEdge file.1)).filter
          (fun edge => ¬ edge.InfluencedBy path) =
        ((callTargets (SymbolIndex.ofHistory history') file).map (callEdge file.1)).filter
          fun edge => ¬ edge.InfluencedBy path := by
    rw [List.filter_map, List.filter_map]
    refine congrArg (List.map (callEdge file.1)) ?_
    refine filter_eq_filter_of_imp (filter_callTargets_eq_of_agreeOff h file) fun target hnot => ?_
    exact bne_iff_ne.2 fun htarget => of_decide_eq_true hnot (Or.inr ⟨rfl, htarget⟩)
  rw [edgesOf, edgesOf, List.filter_append, List.filter_append, includeEdges_eq_of_agreeOff h, hcalls]

/-- All edges of a file are edges that it can change. -/
lemma filter_edgesOf_eq_nil (index : SymbolIndex) (file : String × FileSymbols) :
    (edgesOf index file).filter (fun edge => ¬ edge.InfluencedBy file.1) = [] := by
  refine List.filter_eq_nil_iff.2 fun edge hedge hnot => ?_
  exact of_decide_eq_true hnot (Or.inl (source_of_mem_edgesOf hedge))

/-! ## The edges of a pass -/

/-- Files that agree have the same edges, but for those that the one file can change. -/
lemma filter_flatMap_edgesOf_eq_of_agreeOff (h : AgreeOff path history history')
    {files files' : List (String × FileSymbols)} (hfiles : AgreeOff path files files') :
    (files.flatMap (edgesOf (SymbolIndex.ofHistory history))).filter
        (fun edge => ¬ edge.InfluencedBy path) =
      (files'.flatMap (edgesOf (SymbolIndex.ofHistory history'))).filter
        fun edge => ¬ edge.InfluencedBy path := by
  induction hfiles with
  | nil => rfl
  | @cons file file' files files' hfile _ ih =>
    obtain ⟨hpath, hsymbols⟩ := hfile
    rw [List.flatMap_cons, List.flatMap_cons, List.filter_append, List.filter_append, ih]
    -- the one file has no edge left in either list, and any other file is the same in both
    by_cases hself : file.1 = path
    · subst hself
      rw [filter_edgesOf_eq_nil, hpath, filter_edgesOf_eq_nil]
    · rw [← Prod.ext hpath (hsymbols hself), filter_edgesOf_eq_of_agreeOff h]

/-- After a pass the edges are the same in both runs, but for those that the one file can change. -/
lemma filter_dependencies_eq_of_agreeOff {actions actions' : List Action}
    (h : AgreeOff path (actions.filterMap Action.added?) (actions'.filterMap Action.added?)) :
    (run actions).analyze.dependencies.filter (fun edge => ¬ edge.InfluencedBy path) =
      (run actions').analyze.dependencies.filter fun edge => ¬ edge.InfluencedBy path := by
  rw [dependencies_analyze (tracks_run actions), dependencies_analyze (tracks_run actions'), files,
    files, index_run, index_run]
  exact filter_flatMap_edgesOf_eq_of_agreeOff h h.entries_ofHistory

/-- **What one file can change.**  Two runs that add the same paths in the same order, with the same
symbols under all paths but one, have the same edges after a pass, in the same order, but for the edges
that leave the one file and those of calls into it.  In particular the edges between other files are
the same, and so are the edges of the include directives of other files, the one file included among
their targets. -/
theorem analyze_run_agreeOff {actions actions' : List Action}
    (h : AgreeOff path (actions.filterMap Action.added?) (actions'.filterMap Action.added?)) :
    let edges := (run actions).analyze.dependencies
    let edges' := (run actions').analyze.dependencies
    (edges.filter fun edge => ¬ edge.InfluencedBy path) =
      (edges'.filter fun edge => ¬ edge.InfluencedBy path) ∧
    (edges.filter fun edge => edge.source ≠ path ∧ edge.target ≠ path) =
      (edges'.filter fun edge => edge.source ≠ path ∧ edge.target ≠ path) ∧
    (edges.filter fun edge => edge.reason = .includes ∧ edge.source ≠ path) =
      edges'.filter fun edge => edge.reason = .includes ∧ edge.source ≠ path := by
  intro edges edges'
  have hedges : (edges.filter fun edge => ¬ edge.InfluencedBy path) =
      edges'.filter fun edge => ¬ edge.InfluencedBy path := filter_dependencies_eq_of_agreeOff h
  have hothers : ∀ edge : Dependency, edge.source ≠ path ∧ edge.target ≠ path →
      ¬ edge.InfluencedBy path := by
    rintro edge ⟨hsource, htarget⟩ (hleaves | ⟨-, henters⟩)
    · exact hsource hleaves
    · exact htarget henters
  have hincludes : ∀ edge : Dependency, edge.reason = .includes ∧ edge.source ≠ path →
      ¬ edge.InfluencedBy path := by
    rintro edge ⟨hreason, hsource⟩ (hleaves | ⟨hcall, -⟩)
    · exact hsource hleaves
    · rw [hreason] at hcall
      exact absurd hcall (by decide)
  refine ⟨hedges, filter_eq_filter_of_imp hedges ?_, filter_eq_filter_of_imp hedges ?_⟩
  · intro edge hedge
    exact decide_eq_true (hothers edge (of_decide_eq_true hedge))
  · intro edge hedge
    exact decide_eq_true (hincludes edge (of_decide_eq_true hedge))

/-- A header that comes to define a called name and to include a file gives rise to a call into it and
an include that leaves it; the call into another file that defines the name stays as it was. -/
theorem analyze_run_agreeOff_header :
    let caller : FileSymbols := { filePath := "a.cpp", calledNames := .ofList ["go"] }
    let definer : FileSymbols :=
      { filePath := "b.cpp"
        functions := [{ name := "go", kind := .function, startLine := 1, endLine := 3 }] }
    let header : FileSymbols := { definer with includes := [⟨"b.cpp", 1, false⟩] }
    let actions : List Action :=
      [.addFile "a.cpp" caller, .addFile "f.h" { filePath := "f.h" }, .addFile "b.cpp" definer]
    let actions' : List Action :=
      [.addFile "a.cpp" caller, .addFile "f.h" header, .analyze, .addFile "b.cpp" definer]
    AgreeOff "f.h" (actions.filterMap Action.added?) (actions'.filterMap Action.added?) ∧
    (run actions).analyze.dependencies = [callEdge "a.cpp" "b.cpp"] ∧
    (run actions').analyze.dependencies = [callEdge "a.cpp" "f.h", callEdge "a.cpp" "b.cpp",
      ⟨"f.h", "b.cpp", .includes, some 1⟩] ∧
    ((run actions).analyze.dependencies.filter fun edge => ¬ edge.InfluencedBy "f.h") =
      (run actions').analyze.dependencies.filter fun edge => ¬ edge.InfluencedBy "f.h" := by
  intro caller definer header actions actions'
  have h : AgreeOff "f.h" (actions.filterMap Action.added?) (actions'.filterMap Action.added?) := by
    unfold AgreeOff
    decide
  exact ⟨h, by decide, by decide, (analyze_run_agreeOff h).1⟩

end DependencyGraph

end CppDeps
