import CppDeps.Proofs.Cycle.Sweep
import CppDeps.Proofs.FileGraph.Construction

/-!
# The report on cyclic dependencies

A report names the files of a cycle in the order of the cycle, beginning with the file that was added
first.  Read round, such a list is the same cycle whichever file it begins with, so "the cycle is
reported once" means that exactly one of its rotations is in the report, and this one once
(`FileGraph.findCycles_unbounded`).

A bound on the length of cycles makes the search a different one, which blocks no node that is not on
the path.  It still reports the same cycles in the same order, apart from those that are too long
(`FileGraph.findCycles_withMaxCycleLength`).  A cap on the number of cycles only keeps the first ones of
these (`FileGraph.findCycles_withMaxCycles`).
-/

namespace CppDeps

/-! ## Renaming and rotating cycles -/

section Cycles

variable {α β : Type*} {edge : α → α → Prop}

/-- Renaming the nodes, different ones to different names, keeps simple cycles. -/
lemma isSimpleCycle_map_iff {f : β → α} (hf : Function.Injective f) {c : List β} :
    IsSimpleCycle edge (c.map f) ↔ IsSimpleCycle (fun v w => edge (f v) (f w)) c := by
  have hchain : ((c.map f : List α) : Cycle α).Chain edge ↔
      (c : Cycle β).Chain fun v w => edge (f v) (f w) := by
    rw [← Cycle.map_coe]
    exact Cycle.chain_map f
  constructor
  · intro h
    exact ⟨fun hnil => h.ne_nil (by rw [hnil, List.map_nil]), (List.nodup_map_iff hf).1 h.nodup,
      hchain.1 h.chain⟩
  · intro h
    exact ⟨fun hnil => h.ne_nil (List.map_eq_nil_iff.1 hnil), (List.nodup_map_iff hf).2 h.nodup,
      hchain.2 h.chain⟩

/-- A simple cycle may begin with any of its nodes. -/
lemma IsSimpleCycle.of_isRotated {c d : List α} (h : IsSimpleCycle edge c) (hrotated : c ~r d) :
    IsSimpleCycle edge d := by
  refine ⟨fun hnil => h.ne_nil ?_, hrotated.nodup_iff.1 h.nodup, ?_⟩
  · rw [hnil] at hrotated
    exact List.isRotated_nil_iff.1 hrotated
  · rw [← Cycle.coe_eq_coe.2 hrotated]
    exact h.chain

/-- A list can be turned so that an element of least rank comes first. -/
lemma exists_isRotated_least (rank : α → ℕ) {c : List α} (hc : c ≠ []) :
    ∃ d, c ~r d ∧ ∀ first ∈ d.head?, ∀ a ∈ d, rank first ≤ rank a := by
  obtain ⟨least, hleast, hle⟩ : ∃ least ∈ c, ∀ a ∈ c, rank least ≤ rank a := by
    classical
    obtain ⟨least, hleast, hle⟩ :=
      c.toFinset.exists_min_image rank (List.toFinset_nonempty_iff c |>.2 hc)
    exact ⟨least, List.mem_toFinset.1 hleast, fun a ha => hle a (List.mem_toFinset.2 ha)⟩
  obtain ⟨l, l', rfl⟩ := List.append_of_mem hleast
  have hrotated : (l ++ least :: l') ~r (least :: l' ++ l) := List.isRotated_append
  refine ⟨least :: l' ++ l, hrotated, fun first hfirst a ha => ?_⟩
  obtain rfl : least = first := Option.some.inj hfirst
  exact hle a (hrotated.mem_iff.2 ha)

/-- A list without repetitions is determined by its first element among its rotations. -/
lemma eq_of_isRotated_of_head? {c d : List α} (hc : c.Nodup) (hrotated : c ~r d)
    (hhead : c.head? = d.head?) : c = d := by
  obtain ⟨k, hk, rfl⟩ := List.isRotated_iff_mod.1 hrotated
  rcases hk.eq_or_lt with rfl | hlt
  · exact (List.rotate_length c).symm
  · rw [List.head?_rotate hlt, List.head?_eq_getElem?] at hhead
    have hpos : 0 < c.length := by omega
    obtain rfl : 0 = k := (List.getElem?_inj hpos hc).1 hhead
    exact (List.rotate_zero c).symm

end Cycles

namespace FileGraph

variable {files : List String} {dependencies : List Dependency}

/-! ## Every cycle once -/

/-- A cyclic dependency: a simple cycle of given files along the dependencies, whatever their reason
and number. -/
def IsFileCycle (files : List String) (dependencies : List Dependency) (cycle : List String) : Prop :=
  (∀ file ∈ cycle, file ∈ files) ∧
    IsSimpleCycle (fun source target => DependencyGraph.linked dependencies source target = true)
      cycle

/-- No file of a cycle was added before the first one of the list. -/
def EarliestFirst (files cycle : List String) : Prop :=
  ∀ first ∈ cycle.head?, ∀ file ∈ cycle, files.idxOf first ≤ files.idxOf file

/-- A cycle has only one rotation that begins with its earliest file. -/
lemma EarliestFirst.unique {c d : List String} (hc : EarliestFirst files c)
    (hd : EarliestFirst files d) (hfiles : ∀ file ∈ c, file ∈ files) (hnodup : c.Nodup)
    (hrotated : c ~r d) : c = d := by
  refine eq_of_isRotated_of_head? hnodup hrotated ?_
  rcases c with _ | ⟨a, c⟩
  · rw [List.isRotated_nil_iff'.1 hrotated]
  rcases d with _ | ⟨b, d⟩
  · exact absurd (List.isRotated_nil_iff.1 hrotated) (List.cons_ne_nil a c)
  have ha : a ∈ b :: d := hrotated.mem_iff.1 List.mem_cons_self
  have hb : b ∈ a :: c := hrotated.mem_iff.2 List.mem_cons_self
  have hab : files.idxOf a = files.idxOf b := le_antisymm (hc a rfl b hb) (hd b rfl a ha)
  rw [List.head?_cons, List.head?_cons, (List.idxOf_inj (hfiles a List.mem_cons_self)).1 hab]

/-- Without a cap on their number, all cycles that the bound on the length admits are reported. -/
lemma findCycles_of_uncapped (graph : FileGraph) {limits : CycleLimits}
    (hcap : limits.maxCycles = none) :
    graph.findCycles limits =
      ⟨(graph.toDigraph.allCycles.filter limits.admits).map fun c => c.map graph.files.get, false⟩ := by
  obtain ⟨hcycles, htruncated⟩ :=
    @Tally.noteAll_of_uncapped _ limits hcap Tally.empty rfl
      (graph.toDigraph.allCycles.filter limits.admits)
  rw [findCycles, Digraph.cycles_eq_noteAll, hcycles, htruncated]
  rfl

/-- Without limits all cycles are reported. -/
lemma findCycles_of_unbounded (graph : FileGraph) :
    graph.findCycles .unbounded =
      ⟨graph.toDigraph.allCycles.map fun c => c.map graph.files.get, false⟩ := by
  have hall : graph.toDigraph.allCycles.filter CycleLimits.unbounded.admits =
      graph.toDigraph.allCycles := List.filter_eq_self.2 fun _ _ => rfl
  rw [findCycles_of_uncapped graph rfl, hall]

/-- The report without limits names a cycle at most once. -/
lemma nodup_cycles_unbounded (files : List String) (dependencies : List Dependency) :
    ((ofDependencies files dependencies).findCycles .unbounded).cycles.Nodup := by
  have hget := (ofDependencies files dependencies).nodup_files.injective_get
  have hsuccessors : ∀ v, ((ofDependencies files dependencies).toDigraph.successors v).Nodup :=
    fun v => (pairwise_successors _ v).imp fun hlt => hlt.ne
  rw [findCycles_of_unbounded]
  exact (Digraph.nodup_allCycles hsuccessors).map (List.map_injective_iff.2 hget)

/-- The simple cycles of the graph are the cyclic dependencies, by the names of the files. -/
lemma isFileCycle_map_get_iff {c : List (Fin (ofDependencies files dependencies).files.length)} :
    IsFileCycle files dependencies (c.map (ofDependencies files dependencies).files.get) ↔
      IsSimpleCycle (ofDependencies files dependencies).toDigraph.Edge c := by
  have hget := (ofDependencies files dependencies).nodup_files.injective_get
  have hfiles : ∀ file ∈ c.map (ofDependencies files dependencies).files.get, file ∈ files := by
    intro file hfile
    obtain ⟨v, -, rfl⟩ := List.mem_map.1 hfile
    exact mem_files_ofDependencies.1 (List.get_mem _ v)
  have hedge : (ofDependencies files dependencies).toDigraph.Edge = fun v w =>
      DependencyGraph.linked dependencies ((ofDependencies files dependencies).files.get v)
        ((ofDependencies files dependencies).files.get w) = true :=
    funext fun v => funext fun w => propext edge_toDigraph_iff
  rw [IsFileCycle, isSimpleCycle_map_iff hget, hedge]
  exact and_iff_right hfiles

/-- The least node of a cycle is the file that was added first. -/
lemma earliestFirst_map_get_iff {c : List (Fin (ofDependencies files dependencies).files.length)} :
    EarliestFirst files (c.map (ofDependencies files dependencies).files.get) ↔ LeastFirst c := by
  rcases c with _ | ⟨v, c⟩
  · exact ⟨fun _ _ h => absurd h (by simp), fun _ _ h => absurd h (by simp)⟩
  · simp only [LeastFirst, EarliestFirst, List.map_cons, List.head?_cons, Option.mem_some_iff,
      forall_eq', List.forall_mem_cons, List.forall_mem_map, idxOf_get_le_iff, le_refl]

/-- The report without limits names the cyclic dependencies that begin with their earliest file. -/
lemma mem_cycles_unbounded_iff {cycle : List String} :
    cycle ∈ ((ofDependencies files dependencies).findCycles .unbounded).cycles ↔
      IsFileCycle files dependencies cycle ∧ EarliestFirst files cycle := by
  rw [findCycles_of_unbounded, List.mem_map]
  constructor
  · rintro ⟨c, hc, rfl⟩
    obtain ⟨hc, hleast⟩ := Digraph.mem_allCycles_iff.1 hc
    exact ⟨isFileCycle_map_get_iff.2 hc, earliestFirst_map_get_iff.2 hleast⟩
  · rintro ⟨hc, hearliest⟩
    obtain ⟨c, rfl⟩ : cycle ∈ Set.range (List.map (ofDependencies files dependencies).files.get) := by
      rw [Set.range_list_map, Set.range_list_get]
      exact fun file hfile => mem_files_ofDependencies.2 (hc.1 file hfile)
    have hcycle := Digraph.mem_allCycles_iff.2
      ⟨isFileCycle_map_get_iff.1 hc, earliestFirst_map_get_iff.1 hearliest⟩
    exact ⟨c, hcycle, rfl⟩

/-- **Every cyclic dependency is reported once.**  Without limits, each list that is reported is a
simple cycle of the given files along the dependencies, and begins with the file of the cycle that was
added first; of each simple cycle one rotation is reported, once and no other one; and the report is
not marked as cut short. -/
theorem findCycles_unbounded (files : List String) (dependencies : List Dependency) :
    let report := (ofDependencies files dependencies).findCycles .unbounded
    (∀ cycle ∈ report.cycles,
      IsFileCycle files dependencies cycle ∧ EarliestFirst files cycle) ∧
    (∀ cycle, IsFileCycle files dependencies cycle →
      ∃ rotated, cycle ~r rotated ∧ EarliestFirst files rotated ∧
        report.cycles.count rotated = 1 ∧
        ∀ other ∈ report.cycles, cycle ~r other → other = rotated) ∧
    report.truncated = false := by
  intro report
  refine ⟨fun cycle => mem_cycles_unbounded_iff.1, ?_, ?_⟩
  · rintro cycle ⟨hfiles, hcycle⟩
    obtain ⟨rotated, hrotated, hfirst⟩ := exists_isRotated_least files.idxOf hcycle.ne_nil
    have hfilesr : ∀ file ∈ rotated, file ∈ files := fun file hfile =>
      hfiles file (hrotated.mem_iff.2 hfile)
    have hcycler := hcycle.of_isRotated hrotated
    have hmem : rotated ∈ report.cycles :=
      mem_cycles_unbounded_iff.2 ⟨⟨hfilesr, hcycler⟩, hfirst⟩
    refine ⟨rotated, hrotated, hfirst, ?_, fun other hother hrotated' => ?_⟩
    · exact List.count_eq_one_of_mem (nodup_cycles_unbounded files dependencies) hmem
    · have hearliest := (mem_cycles_unbounded_iff.1 hother).2
      exact (EarliestFirst.unique hfirst hearliest hfilesr hcycler.nodup
        (hrotated.symm.trans hrotated')).symm
  · rw [show report = _ from findCycles_of_unbounded _]

/-! ## A bound on the length -/

/-- **A bound on the length only leaves cycles out.**  With a bound on the length of cycles, and none
on their number, the report is the one without limits less the cycles that are longer, in the same
order. -/
theorem findCycles_withMaxCycleLength (graph : FileGraph) (bound : ℕ) :
    graph.findCycles (CycleLimits.unbounded.withMaxCycleLength bound) =
      ⟨(graph.findCycles .unbounded).cycles.filter fun cycle => decide (cycle.length ≤ bound),
        false⟩ := by
  have hadmits : ∀ c : List (Fin graph.files.length),
      (CycleLimits.unbounded.withMaxCycleLength bound).admits c =
        decide ((c.map graph.files.get).length ≤ bound) := by
    intro c
    rw [List.length_map]
    rfl
  rw [findCycles_of_uncapped graph rfl, findCycles_of_unbounded, List.filter_map]
  congr 2
  exact List.filter_congr fun c _ => hadmits c

/-! ## A cap on the number -/

/-- **A cap on the number cuts the report short.**  With a cap on the number of cycles, whatever the
bound on their length is, the report is made of the first cycles of the one without the cap, as many as
the cap allows; and it is marked as cut short exactly if there are more than these. -/
theorem findCycles_withMaxCycles (graph : FileGraph) (bound : Option ℕ) (cap : ℕ) :
    let uncapped : CycleLimits := { maxCycleLength := bound }
    (graph.findCycles (uncapped.withMaxCycles cap)).cycles =
        (graph.findCycles uncapped).cycles.take cap ∧
      ((graph.findCycles (uncapped.withMaxCycles cap)).truncated = true ↔
        cap < (graph.findCycles uncapped).cycles.length) := by
  intro uncapped
  obtain ⟨hcycles, htruncated⟩ :=
    @Tally.noteAll_of_capped _ (uncapped.withMaxCycles cap) cap rfl Tally.empty rfl (Nat.zero_le cap)
      (graph.toDigraph.allCycles.filter uncapped.admits)
  rw [show Tally.empty.cycles.size = 0 from rfl, Nat.zero_add] at htruncated
  have hcap : uncapped.maxCycles = none := rfl
  have hcapped := graph.toDigraph.cycles_eq_noteAll (uncapped.withMaxCycles cap)
  rw [findCycles_of_uncapped graph hcap, findCycles, hcapped]
  dsimp only
  rw [List.length_map]
  exact ⟨(congrArg (List.map _) hcycles).trans List.map_take, htruncated⟩

end FileGraph

end CppDeps
