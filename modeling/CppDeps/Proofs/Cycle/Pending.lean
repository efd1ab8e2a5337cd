import CppDeps.Proofs.Cycle.Sweep
import Mathlib

/-!
# The components that are pending

A sweep takes nodes out of the graph one after another, each of them the start of one search.  Taking a
node out may split its component into several and leave some nodes in none, and what remains waits
together with components from other parts of the graph.

Still the pending components divide up what is left (`Sweep.divides_run`): they share no node, each is
strongly connected, and a simple cycle whose least node was not a start yet lies in exactly one of them.
A step keeps this (`Sweep.Divides.next`) because the start is the least node of its component.  A cycle
through the start has it as its own least node, and any other cycle of the component keeps all its nodes,
so that these stay linked when the start is gone.
-/

namespace CppDeps

variable {n : ℕ} {g : Digraph n}

/-- A simple cycle of two or more nodes that is still to be found: its least node was not used. -/
structure IsUnsearched (g : Digraph n) (used : Fin n → Prop) (c : List (Fin n)) : Prop where
  isSimpleCycle : IsSimpleCycle g.Edge c
  two_le_length : 2 ≤ c.length
  unused : ∀ least ∈ c, (∀ v ∈ c, least ≤ v) → ¬ used least

/-- The more nodes were used, the fewer cycles are still to be found. -/
lemma IsUnsearched.mono {used used' : Fin n → Prop} {c : List (Fin n)}
    (h : IsUnsearched g used' c) (hused : ∀ v, used v → used' v) : IsUnsearched g used c :=
  ⟨h.isSimpleCycle, h.two_le_length, fun least hmem hle hleast =>
    h.unused least hmem hle (hused least hleast)⟩

namespace Sweep

/-! ## Starts -/

/-- The node that the next step searches from, if the sweep is not over. -/
def start? (sweep : Sweep n) : Option (Fin n) :=
  if sweep.tally.truncated then none else sweep.pending.head?.bind List.head?

/-- The next step searches from the first node of the next component. -/
lemma start?_eq_some {sweep : Sweep n} {start : Fin n} {rest : List (Fin n)}
    {others : List (List (Fin n))} (hpending : sweep.pending = (start :: rest) :: others)
    (htruncated : sweep.tally.truncated = false) : sweep.start? = some start := by
  rw [start?, htruncated, hpending]
  rfl

/-! ## What is pending -/

/-- The pending components divide up what is left of a graph when some nodes were used as starts. -/
structure Divides (g : Digraph n) (used : Fin n → Prop) (pending : List (List (Fin n))) : Prop where
  /-- No node is in two components. -/
  disjoint : pending.Pairwise List.Disjoint
  /-- Each component has two or more nodes. -/
  two_le_length : ∀ C ∈ pending, C.Nodup ∧ 2 ≤ C.length
  /-- Each node of a component leads to each other one inside it. -/
  stronglyConnected : ∀ C ∈ pending, g.StronglyConnected C
  /-- A cycle that is still to be found lies in one component and in no other one. -/
  existsUnique : ∀ c, IsUnsearched g used c → ∃! C, C ∈ pending ∧ ∀ v ∈ c, v ∈ C

variable {used : Fin n → Prop} {sweep : Sweep n}

/-- Of components that share no node at most one holds a cycle. -/
lemma Inv.divides {pending : List (List (Fin n))} (h : Inv pending)
    (hconnected : ∀ C ∈ pending, g.StronglyConnected C)
    (hheld : ∀ c, IsUnsearched g used c → ∃ C ∈ pending, ∀ v ∈ c, v ∈ C) :
    Divides g used pending := by
  have hdisjoint : pending.Pairwise List.Disjoint := (List.nodup_flatten.1 h.nodup).2
  refine ⟨hdisjoint, fun C hC => ⟨?_, h.two_le_length C hC⟩, hconnected, fun c hc => ?_⟩
  · exact (h.ascending C hC).imp fun hlt => hlt.ne
  · obtain ⟨C, hC, hcC⟩ := hheld c hc
    refine ⟨C, ⟨hC, hcC⟩, ?_⟩
    rintro D ⟨hD, hcD⟩
    by_contra hne
    obtain ⟨v, hv⟩ := List.exists_mem_of_ne_nil c hc.isSimpleCycle.ne_nil
    have hsymm : Std.Symm (List.Disjoint (α := Fin n)) := ⟨fun _ _ h => h.symm⟩
    exact hdisjoint.forall hD hC hne (hcD v hv) (hcC v hv)

/-- The more nodes were used, the less is left to be divided up. -/
lemma Divides.mono {used' : Fin n → Prop} {pending : List (List (Fin n))}
    (h : Divides g used pending) (hused : ∀ v, used v → used' v) : Divides g used' pending where
  disjoint := h.disjoint
  two_le_length := h.two_le_length
  stronglyConnected := h.stronglyConnected
  existsUnique c hc := h.existsUnique c (hc.mono hused)

/-- At first no node was used, and every cycle lies in one of the components of the graph. -/
lemma divides_begin (g : Digraph n) (tally : Tally n) :
    Divides g (fun _ => False) (begin g tally).pending := by
  apply (inv_components g (List.pairwise_lt_finRange n)).divides
  · exact fun C hC => Digraph.stronglyConnected_of_mem_components hC
  · exact fun c hc =>
      hc.isSimpleCycle.exists_component hc.two_le_length fun v _ => List.mem_finRange v

/-- When the least node of the next component was used, it may be taken out: no cycle that is still to be
found is split between components or dropped. -/
lemma Divides.next {start : Fin n} {rest : List (Fin n)} {others : List (List (Fin n))}
    (h : Divides g used ((start :: rest) :: others)) (hinv : Inv ((start :: rest) :: others))
    (hused : used start) : Divides g used (g.components rest ++ others) := by
  apply hinv.next.divides
  · intro C hC
    rcases List.mem_append.1 hC with hC | hC
    · exact Digraph.stronglyConnected_of_mem_components hC
    · exact h.stronglyConnected C (List.mem_cons_of_mem _ hC)
  · intro c hc
    obtain ⟨C, ⟨hC, hcC⟩, -⟩ := h.existsUnique c hc
    rcases List.mem_cons.1 hC with rfl | hC
    · -- a cycle through the start would have it as its least node
      have hstart : start ∉ c := fun hmem =>
        hc.unused start hmem (fun v hv => hinv.start_le (hcC v hv)) hused
      obtain ⟨D, hD, hcD⟩ :=
        hc.isSimpleCycle.exists_component_of_notMem hc.two_le_length hcC hstart
      exact ⟨D, List.mem_append_left _ hD, hcD⟩
    · exact ⟨C, List.mem_append_right _ hC, hcC⟩

/-- **One step** uses the start of its search, and the pending components divide up what is left then. -/
lemma Divides.step (h : Divides g used sweep.pending) (hinv : Inv sweep.pending)
    (limits : CycleLimits) :
    Divides g (fun v => used v ∨ sweep.start? = some v) (step g limits sweep).pending := by
  have hmore : Divides g (fun v => used v ∨ sweep.start? = some v) sweep.pending :=
    h.mono fun _ => Or.inl
  obtain ⟨-, hstep⟩ | ⟨start, rest, others, hpending, htruncated, hstep⟩ := step_cases hinv g limits
  · rw [hstep]
    exact hmore
  · have hstart : sweep.start? = some start := start?_eq_some hpending htruncated
    rw [hpending] at hmore hinv
    rw [hstep]
    exact hmore.next hinv (Or.inr hstart)

/-- **The pending components divide up the rest of the graph**, however many steps a sweep has made:
pairwise they share no node, each of them is strongly connected and has two or more nodes, and each simple
cycle of two or more nodes lies in exactly one of them, unless its least node was the start of a search
already. -/
theorem divides_run (g : Digraph n) (limits : CycleLimits) (tally : Tally n) (k : ℕ) :
    let after := fun j => run g limits j (begin g tally)
    Divides g (fun v => ∃ j < k, (after j).start? = some v) (after k).pending := by
  intro after
  induction k with
  | zero =>
    have hnone : (fun v => ∃ j < 0, (after j).start? = some v) = fun _ => False := by
      simp
    rw [hnone]
    exact divides_begin g tally
  | succ k ih =>
    have hinv : Inv (after k).pending :=
      (inv_components g (List.pairwise_lt_finRange n)).run limits k
    have hused : (fun v => ∃ j < k + 1, (after j).start? = some v) =
        fun v => (∃ j < k, (after j).start? = some v) ∨ (after k).start? = some v := by
      funext v
      rw [Nat.exists_lt_succ_right]
    have hlast : after (k + 1) = step g limits (after k) := run_succ g limits k (begin g tally)
    rw [hused, hlast]
    exact ih.step hinv limits

/-- A graph with two cycles through its first node, on each of which hangs another one. -/
def fourCycles : Digraph 5 :=
  .ofEdges [(0, 1), (1, 0), (0, 3), (3, 0), (1, 2), (2, 1), (3, 4), (4, 3)]

/-- All its nodes are in one component.  The first step splits what is left of this in two, and one of the
two holds the cycle through the last two nodes. -/
theorem divides_run_fourCycles :
    let after := fun j => run fourCycles .unbounded j (begin fourCycles .empty)
    (after 0).pending = [[0, 1, 2, 3, 4]] ∧ (after 1).pending = [[1, 2], [3, 4]] ∧
      IsUnsearched fourCycles (fun v => ∃ j < 1, (after j).start? = some v) [4, 3] ∧
      ∃! C, C ∈ (after 1).pending ∧ ∀ v ∈ ([4, 3] : List (Fin 5)), v ∈ C := by
  intro after
  have hwhole : fourCycles.components (List.finRange 5) = [[0, 1, 2, 3, 4]] := by cbv
  have hrest : fourCycles.components [1, 2, 3, 4] = [[1, 2], [3, 4]] := by cbv
  have hbegin : after 0 = ⟨[[0, 1, 2, 3, 4]], .empty⟩ := by
    show begin fourCycles .empty = _
    rw [begin, hwhole]
  have hnext : (after 1).pending = fourCycles.components [1, 2, 3, 4] ++ [] := by
    show (step fourCycles .unbounded (after 0)).pending = _
    rw [hbegin]
    rfl
  have hcycle : IsSimpleCycle fourCycles.Edge [4, 3] := by
    have hout : fourCycles.Edge 4 3 := Digraph.edge_ofEdges_iff.2 (by decide)
    have hback : fourCycles.Edge 3 4 := Digraph.edge_ofEdges_iff.2 (by decide)
    refine ⟨by decide, by decide, ?_⟩
    simp [hout, hback]
  have hunsearched :
      IsUnsearched fourCycles (fun v => ∃ j < 1, (after j).start? = some v) [4, 3] := by
    refine ⟨hcycle, le_rfl, ?_⟩
    rintro least hleast - ⟨j, hj, hstart⟩
    obtain rfl : j = 0 := by omega
    rw [start?_eq_some (congrArg Sweep.pending hbegin) (congrArg (·.tally.truncated) hbegin)] at hstart
    obtain rfl := Option.some.inj hstart
    exact absurd hleast (by decide)
  rw [hrest] at hnext
  exact ⟨congrArg Sweep.pending hbegin, hnext, hunsearched,
    (divides_run fourCycles .unbounded .empty 1).existsUnique [4, 3] hunsearched⟩

end Sweep

end CppDeps
