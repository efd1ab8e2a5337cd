import CppDeps.Metrics
import CppDeps.Proofs.DependencyGraph.Edges
import CppDeps.Proofs.SymbolIndex.Includes

/-!
# The most coupled files

Files are ranked by a stable sort of the list of all files, the largest coupling first.  So the files of
equal coupling, which are the usual case, stay in the order of their first additions
(`pairwise_mergeSort_largest_first`).  A short ranking is the first part of this one, and all that is left
out of it comes later (`DependencyGraph.mostCoupled_run`).
-/

namespace CppDeps

/-! ## Sorting by a count -/

section Sorting

variable {α : Type*}

/-- Sorting keeps the order of elements that rank alike. -/
lemma filter_mergeSort_eq {le : α → α → Bool} (htrans : ∀ a b c, le a b → le b c → le a c)
    (htotal : ∀ a b, le a b || le b a) {p : α → Bool}
    (halike : ∀ a b, p a = true → p b = true → le a b = true) (l : List α) :
    (l.mergeSort le).filter p = l.filter p := by
  have hsorted : (l.filter p).Pairwise (le · ·) :=
    List.pairwise_of_forall_mem_list fun a ha b hb =>
      halike a b (List.mem_filter.1 ha).2 (List.mem_filter.1 hb).2
  have hsublist : (l.filter p).Sublist (l.mergeSort le) :=
    List.sublist_mergeSort htrans htotal hsorted List.filter_sublist
  have hsublist' : (l.filter p).Sublist ((l.mergeSort le).filter p) := by
    have hfiltered := hsublist.filter p
    rwa [List.filter_filter, funext fun a => Bool.and_self (p a)] at hfiltered
  have hlength : (l.filter p).length = ((l.mergeSort le).filter p).length :=
    ((List.mergeSort_perm l le).filter p).length_eq.symm
  exact (hsublist'.eq_of_length hlength).symm

/-- Sorting by a count, the largest first, keeps the order of elements with the same count. -/
lemma pairwise_mergeSort_largest_first (count : α → ℕ) {r : α → α → Prop} {l : List α}
    (h : l.Pairwise r) :
    (l.mergeSort fun a b => decide (count b ≤ count a)).Pairwise fun a b =>
      count b < count a ∨ count a = count b ∧ r a b := by
  have htrans : ∀ a b c, decide (count b ≤ count a) = true → decide (count c ≤ count b) = true →
      decide (count c ≤ count a) = true := by
    simp only [decide_eq_true_iff]
    exact fun a b c hba hcb => hcb.trans hba
  have htotal : ∀ a b, (decide (count b ≤ count a) || decide (count a ≤ count b)) = true := by
    simp only [Bool.or_eq_true, decide_eq_true_iff]
    exact fun a b => le_total (count b) (count a)
  have hsorted := List.pairwise_mergeSort htrans htotal l
  rw [List.pairwise_iff_forall_sublist] at hsorted ⊢
  intro a b hpair
  rcases (of_decide_eq_true (hsorted hpair)).lt_or_eq with hlt | heq
  · exact Or.inl hlt
  · -- the two stand in the list of all elements with their count, which sorting leaves alone
    have hkept : [a, b].Sublist (l.filter fun c => count c == count a) := by
      have hboth : [a, b].filter (fun c => count c == count a) = [a, b] := by
        simp only [List.filter_eq_self, List.forall_mem_cons, beq_iff_eq, heq, true_and,
          List.not_mem_nil, false_imp_iff, implies_true]
      have halike : ∀ c d, (count c == count a) = true → (count d == count a) = true →
          decide (count d ≤ count c) = true := by
        intro c d hc hd
        rw [decide_eq_true_iff, beq_iff_eq.1 hc, beq_iff_eq.1 hd]
      rw [← filter_mergeSort_eq htrans htotal halike l, ← hboth]
      exact hpair.filter _
    refine Or.inr ⟨heq.symm, ?_⟩
    exact List.pairwise_iff_forall_sublist.1 h (hkept.trans List.filter_sublist)

end Sorting

namespace DependencyGraph

variable {graph : DependencyGraph} {actions : List Action}

/-! ## The ranking of all files -/

/-- Of two files with their couplings, the one with the larger coupling comes first, and of two with the
same coupling the one that was added first. -/
def Outranks (added : List String) (a b : String × ℕ) : Prop :=
  b.2 < a.2 ∨ a.2 = b.2 ∧ added.idxOf a.1 < added.idxOf b.1

/-- All files with their couplings, in the order of the files. -/
def couplings (graph : DependencyGraph) : List (String × ℕ) :=
  graph.index.filePaths.map fun file => (file, graph.coupling file)

/-- All files with their couplings, ranked. -/
def ranking (graph : DependencyGraph) : List (String × ℕ) :=
  graph.couplings.mergeSort fun a b => decide (b.2 ≤ a.2)

/-- The most coupled files are the first ones of the ranking. -/
lemma mostCoupled_eq_take (graph : DependencyGraph) (limit : ℕ) :
    graph.mostCoupled limit = graph.ranking.take limit := by
  have hcouplings : graph.couplings = graph.files.map fun file => (file.1, graph.coupling file.1) :=
    List.map_map
  rw [ranking, hcouplings]
  rfl

/-- The ranking has all files, each with the coupling that its metrics give. -/
lemma mem_ranking_iff {file : String} {coupling : ℕ} :
    (file, coupling) ∈ graph.ranking ↔
      ∃ metrics, graph.metrics? file = some metrics ∧ metrics.coupling = coupling := by
  rw [ranking, List.mem_mergeSort, couplings, List.mem_map]
  constructor
  · rintro ⟨_, hfile, heq⟩
    obtain ⟨rfl, rfl⟩ := Prod.mk.inj heq
    obtain ⟨symbols, hsymbols⟩ := (SymbolIndex.mem_filePaths_iff _).1 hfile
    exact ⟨graph.metricsFor _ symbols, Option.map_eq_some_iff.2 ⟨symbols, hsymbols, rfl⟩, rfl⟩
  · rintro ⟨metrics, hmetrics, rfl⟩
    obtain ⟨symbols, hsymbols, rfl⟩ := Option.map_eq_some_iff.1 hmetrics
    exact ⟨file, (SymbolIndex.mem_filePaths_iff _).2 ⟨symbols, hsymbols⟩, rfl⟩

/-- The ranking has each file once. -/
lemma map_fst_ranking_perm (graph : DependencyGraph) :
    (graph.ranking.map Prod.fst).Perm graph.index.filePaths := by
  have hfiles : graph.couplings.map Prod.fst = graph.index.filePaths := by
    rw [couplings, List.map_map]
    exact List.map_id _
  rw [← hfiles]
  exact (List.mergeSort_perm _ _).map Prod.fst

/-- In the ranking after some actions each file outranks those behind it. -/
lemma pairwise_ranking_run (actions : List Action) :
    (run actions).ranking.Pairwise
      (Outranks ((actions.filterMap Action.added?).map Prod.fst)) := by
  have hordered : (run actions).couplings.Pairwise fun a b =>
      ((actions.filterMap Action.added?).map Prod.fst).idxOf a.1 <
        ((actions.filterMap Action.added?).map Prod.fst).idxOf b.1 := by
    rw [couplings, List.pairwise_map, filePaths_run]
    exact pairwise_idxOf_eraseDups _
  exact pairwise_mergeSort_largest_first Prod.snd hordered

/-! ## The first of the ranking -/

/-- What is left out of the first part of a list comes after the last element of that part. -/
lemma exists_getLast?_take {α : Type*} {r : α → α → Prop} {l : List α} (h : l.Pairwise r) {n : ℕ}
    (hn : 0 < n) {b : α} (hb : b ∈ l) (hout : b ∉ l.take n) :
    ∃ last, (l.take n).getLast? = some last ∧ r last b := by
  have hdrop : b ∈ l.drop n := by
    rw [← List.take_append_drop n l, List.mem_append] at hb
    exact hb.resolve_left hout
  have hne : l.take n ≠ [] := by
    rw [ne_eq, List.take_eq_nil_iff, not_or]
    exact ⟨hn.ne', List.ne_nil_of_mem hb⟩
  refine ⟨(l.take n).getLast hne, List.getLast?_eq_some_getLast hne, ?_⟩
  rw [← List.take_append_drop n l, List.pairwise_append] at h
  exact h.2.2 _ (List.getLast_mem hne) b hdrop

/-- **The most coupled files**, after any additions and passes.  There are as many as asked for, or all
if there are fewer, each once and with the coupling that its metrics give.  A file comes before those of
smaller coupling and before those of the same coupling that were first added later, also those left out.
And asking for more files leaves the first ones as they are. -/
theorem mostCoupled_run (actions : List Action) (limit : ℕ) :
    let graph := run actions
    let added := (actions.filterMap Action.added?).map Prod.fst
    let top := graph.mostCoupled limit
    top.length = min limit graph.index.fileCount ∧
    (top.map Prod.fst).Nodup ∧
    (∀ file coupling, (file, coupling) ∈ top →
      ∃ metrics, graph.metrics? file = some metrics ∧ metrics.coupling = coupling) ∧
    top.Pairwise (Outranks added) ∧
    (∀ file metrics, graph.metrics? file = some metrics → file ∉ top.map Prod.fst → 0 < limit →
      ∃ last, top.getLast? = some last ∧ Outranks added last (file, metrics.coupling)) ∧
    ∀ more, limit ≤ more → top <+: graph.mostCoupled more := by
  intro graph added top
  have htop : top = graph.ranking.take limit := mostCoupled_eq_take graph limit
  have hpairwise : graph.ranking.Pairwise (Outranks added) := pairwise_ranking_run actions
  have hfiles := map_fst_ranking_perm graph
  refine ⟨?_, ?_, fun file coupling hentry => ?_, ?_, fun file metrics hmetrics hout hlimit => ?_,
    fun more hmore => ?_⟩
  · have hlength : graph.ranking.length = graph.index.fileCount := by
      rw [← List.length_map Prod.fst, hfiles.length_eq]
      exact List.length_map _
    rw [htop, List.length_take, hlength]
  · have hnodup : (graph.ranking.map Prod.fst).Nodup :=
      hfiles.nodup_iff.2 graph.index.nodup_filePaths
    rw [htop, List.map_take]
    exact hnodup.sublist (List.take_sublist _ _)
  · rw [htop] at hentry
    exact mem_ranking_iff.1 (List.mem_of_mem_take hentry)
  · rw [htop]
    exact hpairwise.sublist (List.take_sublist _ _)
  · have hranked : (file, metrics.coupling) ∈ graph.ranking :=
      mem_ranking_iff.2 ⟨metrics, hmetrics, rfl⟩
    rw [htop] at hout ⊢
    exact exists_getLast?_take hpairwise hlimit hranked fun hmem =>
      hout (List.mem_map.2 ⟨_, hmem, rfl⟩)
  · rw [htop, mostCoupled_eq_take]
    exact List.take_prefix_take_left hmore

/-- A header that two sources include, the second of which is as coupled as the first. -/
def starActions : List Action :=
  [.addFile "hub.h" { filePath := "hub.h" },
    .addFile "a.cpp" { filePath := "a.cpp", includes := [⟨"hub.h", 1, false⟩] },
    .addFile "b.cpp" { filePath := "b.cpp", includes := [⟨"hub.h", 1, false⟩] },
    .analyze]

/-- Of two files with the same coupling the one added later is left out. -/
theorem mostCoupled_run_star :
    let graph := run starActions
    graph.mostCoupled 2 = [("hub.h", 2), ("a.cpp", 1)] ∧
    ∃ metrics, graph.metrics? "b.cpp" = some metrics ∧ 0 < 2 ∧
      "b.cpp" ∉ (graph.mostCoupled 2).map Prod.fst ∧
      ∃ last, (graph.mostCoupled 2).getLast? = some last ∧
        Outranks ["hub.h", "a.cpp", "b.cpp"] last ("b.cpp", metrics.coupling) := by
  intro graph
  have htop : graph.mostCoupled 2 = [("hub.h", 2), ("a.cpp", 1)] := by
    have hcouplings : graph.couplings = [("hub.h", 2), ("a.cpp", 1), ("b.cpp", 1)] := by decide
    rw [mostCoupled_eq_take, ranking, hcouplings, List.mergeSort_of_pairwise (by decide)]
    rfl
  obtain ⟨metrics, hmetrics⟩ : ∃ metrics, graph.metrics? "b.cpp" = some metrics := ⟨_, rfl⟩
  have hout : "b.cpp" ∉ (graph.mostCoupled 2).map Prod.fst := by
    rw [htop]
    decide
  obtain ⟨-, -, -, -, hleft, -⟩ := mostCoupled_run starActions 2
  exact ⟨htop, metrics, hmetrics, Nat.two_pos, hout,
    hleft "b.cpp" metrics hmetrics hout Nat.two_pos⟩

end DependencyGraph

end CppDeps
