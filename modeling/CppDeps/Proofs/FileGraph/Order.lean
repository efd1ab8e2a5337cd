import CppDeps.Proofs.Cycle.Order
import CppDeps.Proofs.FileGraph.Cycles
import CppDeps.Proofs.FileGraph.Numbering

/-!
# The order of a report

A file is numbered when it is first added to the graph, and the report follows these numbers.  Read as
lists of numbers, its cycles are in order (`FileGraph.inOrder_findCycles`): the cycles of one file come
first, the others stand together by their first file, and those with the same first file ascend
lexicographically.  A bound on the length leaves cycles out and so keeps this order.
-/

namespace CppDeps

namespace FileGraph

/-- In a graph without repeated files the number of a file is its place among the files. -/
lemma map_idxOf_map_get {files : List String} (hnodup : files.Nodup) (c : List (Fin files.length)) :
    (c.map files.get).map files.idxOf = c.map Fin.val := by
  rw [List.map_map]
  exact List.map_congr_left fun v _ => hnodup.idxOf_getElem v.val v.isLt

/-- **The order of a report.**  Whatever files and edges were added to a graph, and in which order, and
whatever the bound on the length of cycles is, the report without a cap on their number is in order by
the numbers of the files. -/
theorem inOrder_findCycles (actions : List Action) (bound : Option ℕ) :
    InOrder (((run actions).findCycles { maxCycleLength := bound }).cycles.map fun cycle =>
      cycle.map (run actions).files.idxOf) := by
  have hsuccessors : ∀ v, ((run actions).toDigraph.successors v).Pairwise (· < ·) :=
    pairwise_successors _
  have hall : InOrder ((run actions).toDigraph.allCycles.filter
      ({ maxCycleLength := bound } : CycleLimits).admits) :=
    (Digraph.inOrder_allCycles hsuccessors).sublist List.filter_sublist
  rw [findCycles_of_uncapped _ rfl, List.map_map]
  have hnumbers : ∀ c : List (Fin (run actions).files.length),
      (c.map (run actions).files.get).map (run actions).files.idxOf = c.map Fin.val :=
    map_idxOf_map_get (run actions).nodup_files
  simp only [Function.comp_def, hnumbers]
  exact hall.map Fin.val_injective fun _ _ hlt => hlt

end FileGraph

end CppDeps
