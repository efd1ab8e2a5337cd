import CppDeps.Proofs.DependencyGraph.Edges
import CppDeps.Proofs.SymbolIndex.Includes
import Mathlib.Data.List.Nodup
import Mathlib.Data.List.Perm.Basic

/-!
# The order of additions

Two runs that leave the same symbols under the same paths may still have added them in different orders.
The files keep the order of their first additions, the table of basenames and the definitions that of
the last ones, and calls are linked in the order in which they are found.  All of this shows in an index,
but only where several files compete for an include path does it decide what is found.  Where no two
files do (`SymbolIndex.Unambiguous`), an include path means the same file in both runs, and a pass finds
the same edges, though maybe in another order.
-/

namespace CppDeps

namespace SymbolIndex

variable {index index' : SymbolIndex} {history history' : List (String × FileSymbols)}

/-- No include path of a file can be taken for two files: no two files bear the same basename, and where
an include path is not that of a file and bears the basename of none, no two files end with its text. -/
structure Unambiguous (index : SymbolIndex) : Prop where
  basename_inj : ∀ path ∈ index.filePaths, ∀ path' ∈ index.filePaths,
    Path.basename path = Path.basename path' → path = path'
  suffix_inj : ∀ file ∈ index.files.entries, ∀ directive ∈ file.2.includes,
    directive.path ∉ index.filePaths →
    (∀ path ∈ index.filePaths, Path.basename path ≠ Path.basename directive.path) →
    ∀ path ∈ index.filePaths, ∀ path' ∈ index.filePaths,
      directive.path.toList <:+ path.toList → directive.path.toList <:+ path'.toList → path = path'

/-! ## Indexes with the same files -/

/-- Indexes with the same symbols under each path have the same files. -/
lemma mem_filePaths_congr (h : ∀ path, index.file? path = index'.file? path) (path : String) :
    path ∈ index.filePaths ↔ path ∈ index'.filePaths := by
  rw [mem_filePaths_iff, mem_filePaths_iff, h]

/-- Indexes with the same symbols under each path list the same entries, in some order. -/
lemma entries_perm (h : ∀ path, index.file? path = index'.file? path) :
    index.files.entries.Perm index'.files.entries := by
  refine (List.perm_ext_iff_of_nodup index.files.nodup.of_map index'.files.nodup.of_map).2 ?_
  rintro ⟨path, symbols⟩
  have hsame : index.files.get? path = index'.files.get? path := h path
  rw [← Table.get?_eq_some_iff, ← Table.get?_eq_some_iff, hsame]

/-- Additions with the same latest ones, in whatever order, leave the same symbols under each path. -/
lemma file?_ofHistory_eq_of_perm (h : (latest history).Perm (latest history')) (path : String) :
    (ofHistory history).file? path = (ofHistory history').file? path := by
  refine Option.ext fun stored => ?_
  rw [(tracks_ofHistory history).file?_eq_some_iff, (tracks_ofHistory history').file?_eq_some_iff]
  simp only [h.mem_iff]

/-! ## Include paths -/

/-- Where no choice is left, an include path means the same among the same paths, in whatever order and
however often these were added. -/
lemma includeTarget?_eq_of_mem_iff {added added' : List String}
    (hsame : ∀ path, path ∈ added ↔ path ∈ added') {path : String} (source : String)
    (hbasename : ∀ known ∈ added, ∀ known' ∈ added,
      Path.basename known = Path.basename known' → known = known')
    (hsuffix : path ∉ added → (∀ known ∈ added, Path.basename known ≠ Path.basename path) →
      ∀ known ∈ added, ∀ known' ∈ added,
        path.toList <:+ known.toList → path.toList <:+ known'.toList → known = known') :
    includeTarget? added path source = includeTarget? added' path source := by
  have hfound : (added.reverse.find? fun known => Path.basename known = Path.basename path) =
      added'.reverse.find? fun known => Path.basename known = Path.basename path := by
    refine find?_eq_of_unique (by simp only [List.mem_reverse, hsame, implies_true]) ?_
    simp only [List.mem_reverse, decide_eq_true_iff]
    exact fun known hknown known' hknown' heq heq' =>
      hbasename known hknown known' hknown' (heq.trans heq'.symm)
  unfold includeTarget?
  simp only [← hsame, ← hfound]
  by_cases hexact : path ∈ added
  · rw [if_pos hexact, Option.some_or, Option.some_or]
  · cases hborne : added.reverse.find? fun known => Path.basename known = Path.basename path with
    | some known => rw [Option.some_or, Option.some_or]
    | none =>
      have hnone : ∀ known ∈ added, Path.basename known ≠ Path.basename path := by
        simpa only [List.find?_eq_none, List.mem_reverse, decide_eq_true_iff] using hborne
      have hends : (added.find? fun known => path.toList <:+ known.toList) =
          added'.find? fun known => path.toList <:+ known.toList := by
        refine find?_eq_of_unique hsame ?_
        simp only [decide_eq_true_iff]
        exact hsuffix hexact hnone
      rw [hends]

/-- Include directives of the files of an unambiguous index mean the same in every index with the same
files. -/
lemma resolveInclude_eq_of_unambiguous
    (hfiles : ∀ path, (ofHistory history).file? path = (ofHistory history').file? path)
    (hclear : (ofHistory history).Unambiguous) {file : String × FileSymbols}
    (hfile : file ∈ (ofHistory history).files.entries) {directive : Include}
    (hdirective : directive ∈ file.2.includes) (source : String) :
    (ofHistory history).resolveInclude directive.path source =
      (ofHistory history').resolveInclude directive.path source := by
  have hpaths : ∀ path, path ∈ history.map Prod.fst ↔ path ∈ (ofHistory history).filePaths :=
    fun path => mem_filePaths_ofHistory.symm
  have hsame : ∀ path, path ∈ history.map Prod.fst ↔ path ∈ history'.map Prod.fst := by
    intro path
    rw [hpaths, mem_filePaths_congr hfiles, mem_filePaths_ofHistory]
  rw [resolveInclude_ofHistory_eq, resolveInclude_ofHistory_eq]
  refine includeTarget?_eq_of_mem_iff hsame source ?_ ?_
  · simp only [hpaths]
    exact hclear.basename_inj
  · simp only [hpaths]
    exact hclear.suffix_inj file hfile directive hdirective

end SymbolIndex

namespace DependencyGraph

variable {history history' : List (String × FileSymbols)}

/-! ## Edges -/

/-- A file leads to the same files, those called maybe in another order. -/
lemma edgesOf_perm
    (hfiles : ∀ path, (SymbolIndex.ofHistory history).file? path =
      (SymbolIndex.ofHistory history').file? path)
    (hclear : (SymbolIndex.ofHistory history).Unambiguous) {file : String × FileSymbols}
    (hfile : file ∈ (SymbolIndex.ofHistory history).files.entries) :
    (edgesOf (SymbolIndex.ofHistory history) file).Perm
      (edgesOf (SymbolIndex.ofHistory history') file) := by
  have hincludes : includeEdges (SymbolIndex.ofHistory history) file =
      includeEdges (SymbolIndex.ofHistory history') file := by
    refine List.filterMap_congr fun directive hdirective => ?_
    rw [SymbolIndex.resolveInclude_eq_of_unambiguous hfiles hclear hfile hdirective]
  have hnodup : ∀ index, (callTargets index file).Nodup := fun _ => nodup_eraseDups _
  have hcalls : (callTargets (SymbolIndex.ofHistory history) file).Perm
      (callTargets (SymbolIndex.ofHistory history') file) := by
    refine (List.perm_ext_iff_of_nodup (hnodup _) (hnodup _)).2 fun target => ?_
    rw [mem_callTargets_iff (SymbolIndex.tracks_ofHistory history),
      mem_callTargets_iff (SymbolIndex.tracks_ofHistory history'), includeTargets, includeTargets,
      hincludes, hfiles]
  rw [edgesOf, edgesOf, hincludes]
  exact (hcalls.map _).append_left _

/-- **The order of additions does not matter** to the edges of a pass, as far as no include path can be
taken for two files: two runs after which the same symbols are known of the same files have the same
edges, each as many times, maybe in another order. -/
theorem analyze_run_perm {actions actions' : List Action}
    (hfiles : ∀ path, (run actions).index.file? path = (run actions').index.file? path)
    (hclear : (run actions).index.Unambiguous) :
    (run actions).analyze.dependencies.Perm (run actions').analyze.dependencies := by
  rw [dependencies_analyze (tracks_run actions), dependencies_analyze (tracks_run actions'), files,
    files]
  have hentries := SymbolIndex.entries_perm hfiles
  refine hentries.flatMap fun file hfile => ?_
  rw [index_run] at hclear hfile
  simp only [index_run] at hfiles ⊢
  exact edgesOf_perm hfiles hclear hfile

/-- Two runs that add a source file before and after the files on which it depends, in one of them a
second time.  The include of `.h` means the only path that ends so, and a called name is defined in two
files, which the runs list in different orders. -/
theorem analyze_run_perm_source :
    let source : FileSymbols :=
      { filePath := "main.cpp", includes := [⟨"lib/run.h", 1, false⟩, ⟨".h", 2, false⟩]
        calledNames := .ofList ["go"] }
    let header : FileSymbols :=
      { filePath := "lib/run.h"
        functions := [{ name := "go", kind := .function, startLine := 1, endLine := 3 }] }
    let first : FileSymbols := { header with filePath := "a.cpp" }
    let second : FileSymbols := { header with filePath := "b.cpp" }
    let actions : List Action :=
      [.addFile "main.cpp" source, .addFile "lib/run.h" header, .addFile "a.cpp" first,
        .addFile "b.cpp" second]
    let actions' : List Action :=
      [.addFile "b.cpp" header, .addFile "main.cpp" header, .analyze, .addFile "b.cpp" second,
        .addFile "a.cpp" first, .addFile "lib/run.h" header, .addFile "main.cpp" source]
    (∀ path, (run actions).index.file? path = (run actions').index.file? path) ∧
    (run actions).index.Unambiguous ∧
    (run actions).analyze.dependencies =
      [⟨"main.cpp", "lib/run.h", .includes, some 1⟩, ⟨"main.cpp", "lib/run.h", .includes, some 2⟩,
        callEdge "main.cpp" "a.cpp", callEdge "main.cpp" "b.cpp"] ∧
    (run actions').analyze.dependencies =
      [⟨"main.cpp", "lib/run.h", .includes, some 1⟩, ⟨"main.cpp", "lib/run.h", .includes, some 2⟩,
        callEdge "main.cpp" "b.cpp", callEdge "main.cpp" "a.cpp"] ∧
    (run actions).analyze.dependencies.Perm (run actions').analyze.dependencies := by
  intro source header first second actions actions'
  have hfiles : ∀ path, (run actions).index.file? path = (run actions').index.file? path := by
    intro path
    rw [index_run, index_run]
    exact SymbolIndex.file?_ofHistory_eq_of_perm (by decide) path
  have hclear : (run actions).index.Unambiguous := ⟨by decide, by decide⟩
  exact ⟨hfiles, hclear, by decide, by decide, analyze_run_perm hfiles hclear⟩

end DependencyGraph

end CppDeps
