import CppDeps.Cycle.Sweep
import CppDeps.Proofs.Cycle.Listing
import CppDeps.Proofs.Digraph.Components

/-!
# All cycles of a graph are listed once

The least node of a simple cycle of two or more nodes is the start of exactly one search: all nodes of
the cycle share a component, and they do so until one of them is taken out.  So a sweep lists every
cycle, from its least node on, and lists it once.  It is over after as many steps as there are nodes in
the components (`Sweep.pending_run_eq_nil_or`).

The outcome is stated for every choice of limits at once.  There is one list of cycles of a graph
(`Digraph.allCycles`), and what is recorded under some limits is the part of it that the bound on the
length admits, up to the cap on the number of cycles (`Digraph.cycles_eq_noteAll`).
-/

namespace CppDeps

open Relation

variable {n : ℕ} {g : Digraph n}

/-! ## Cycles and components -/

/-- Each node of a simple cycle leads to each other one. -/
lemma IsSimpleCycle.transGen {α : Type*} {edge : α → α → Prop} {c : List α}
    (h : IsSimpleCycle edge c) {v w : α} (hv : v ∈ c) (hw : w ∈ c) : TransGen edge v w :=
  Cycle.chain_iff_pairwise.1 (h.chain.imp fun _ _ hedge => TransGen.single hedge) v hv w hw

/-- A simple cycle on some nodes is one of the part of the graph in these nodes. -/
lemma IsSimpleCycle.part {nodes c : List (Fin n)} (h : IsSimpleCycle g.Edge c)
    (hc : ∀ v ∈ c, v ∈ nodes) : IsSimpleCycle (g.part nodes).Edge c := by
  refine ⟨h.ne_nil, h.nodup, ?_⟩
  rcases c with _ | ⟨a, l⟩
  · exact absurd rfl h.ne_nil
  · have hmem : ∀ v ∈ a :: (l ++ [a]), v ∈ nodes := by
      intro v hv
      refine hc v ?_
      simpa [or_comm, or_left_comm] using hv
    have hchain := h.chain
    rw [Cycle.chain_coe_cons] at hchain ⊢
    refine hchain.imp_of_mem_imp fun v w hv hw hedge => ?_
    exact Digraph.edge_part_iff.2 ⟨hmem v hv, hmem w hw, hedge⟩

/-- **A cycle lies in one component.**  The nodes of a simple cycle of two or more of some nodes share
one of the components among these nodes. -/
lemma IsSimpleCycle.exists_component {nodes c : List (Fin n)} (h : IsSimpleCycle g.Edge c)
    (htwo : 2 ≤ c.length) (hc : ∀ v ∈ c, v ∈ nodes) :
    ∃ C ∈ g.components nodes, ∀ v ∈ c, v ∈ C := by
  have hlink : ∀ {v w}, v ∈ c → w ∈ c → (g.part nodes).Linked v w := fun hv hw =>
    ⟨((h.part hc).transGen hv hw).to_reflTransGen, ((h.part hc).transGen hw hv).to_reflTransGen⟩
  obtain ⟨a, b, l, rfl⟩ : ∃ a b l, c = a :: b :: l := by
    rcases c with _ | ⟨a, _ | ⟨b, l⟩⟩
    · simp at htwo
    · simp at htwo
    · exact ⟨a, b, l, rfl⟩
  have ha : a ∈ a :: b :: l := List.mem_cons_self
  have hb : b ∈ a :: b :: l := List.mem_cons_of_mem a List.mem_cons_self
  have hne : a ≠ b := fun e => (List.nodup_cons.1 h.nodup).1 (e ▸ List.mem_cons_self)
  obtain ⟨C, hC, haC, -⟩ :=
    Digraph.exists_mem_components (hc a ha) (hc b hb) hne (hlink ha hb)
  exact ⟨C, hC, fun v hv => Digraph.mem_component_of_linked hC haC (hc v hv) (hlink ha hv)⟩

/-- When one of some nodes is taken out, a cycle without it lies in one component of the others. -/
lemma IsSimpleCycle.exists_component_of_notMem {start : Fin n} {rest c : List (Fin n)}
    (h : IsSimpleCycle g.Edge c) (htwo : 2 ≤ c.length) (hc : ∀ v ∈ c, v ∈ start :: rest)
    (hstart : start ∉ c) : ∃ C ∈ g.components rest, ∀ v ∈ c, v ∈ C := by
  apply h.exists_component htwo
  intro v hv
  refine (List.mem_cons.1 (hc v hv)).resolve_left ?_
  rintro rfl
  exact hstart hv

/-- The first node of a list is its least. -/
def LeastFirst (c : List (Fin n)) : Prop :=
  ∀ first ∈ c.head?, ∀ v ∈ c, first ≤ v

namespace Sweep

/-! ## The pending components -/

/-- The pending components have two or more nodes each, in ascending order, and share none. -/
structure Inv (pending : List (List (Fin n))) : Prop where
  ascending : ∀ C ∈ pending, C.Pairwise (· < ·)
  two_le_length : ∀ C ∈ pending, 2 ≤ C.length
  nodup : pending.flatten.Nodup

/-- The first node of the next component is its least. -/
lemma Inv.start_le {start : Fin n} {rest : List (Fin n)} {others : List (List (Fin n))}
    (h : Inv ((start :: rest) :: others)) {v : Fin n} (hv : v ∈ start :: rest) : start ≤ v := by
  rcases List.mem_cons.1 hv with rfl | hrest
  · exact le_rfl
  · exact ((List.pairwise_cons.1 (h.ascending _ List.mem_cons_self)).1 v hrest).le

/-- The components among some nodes in ascending order may be pending. -/
lemma inv_components (g : Digraph n) {nodes : List (Fin n)} (h : nodes.Pairwise (· < ·)) :
    Inv (g.components nodes) where
  ascending C hC := by
    rw [Digraph.components_eq_largeClasses h] at hC
    exact h.sublist (Digraph.sublist_of_mem_classes (List.mem_of_mem_filter hC))
  two_le_length _ hC := Digraph.two_le_length_of_mem_components hC
  nodup := by
    obtain ⟨l, hperm, hsub⟩ := Digraph.flatten_components_subperm g nodes
    have hnodes : nodes.Nodup := h.imp fun hlt => hlt.ne
    exact hperm.nodup_iff.1 (hnodes.sublist hsub)

/-- The nodes of the components among some nodes are among these nodes. -/
lemma mem_of_mem_components {nodes : List (Fin n)} {v : Fin n}
    (hv : v ∈ (g.components nodes).flatten) : v ∈ nodes :=
  (Digraph.flatten_components_subperm g nodes).subset hv

/-- Taking the least node out of the next component keeps the pending components in order. -/
lemma Inv.next {start : Fin n} {rest : List (Fin n)} {others : List (List (Fin n))}
    (h : Inv ((start :: rest) :: others)) : Inv (g.components rest ++ others) := by
  have hrest : rest.Pairwise (· < ·) :=
    (List.pairwise_cons.1 (h.ascending _ List.mem_cons_self)).2
  have hparts := inv_components g hrest
  have hnodup := h.nodup
  rw [List.flatten_cons, List.cons_append, List.nodup_cons, List.nodup_append] at hnodup
  obtain ⟨-, -, hothers, hdisjoint⟩ := hnodup
  refine ⟨fun C hC => ?_, fun C hC => ?_, ?_⟩
  · rcases List.mem_append.1 hC with hC | hC
    · exact hparts.ascending C hC
    · exact h.ascending C (List.mem_cons_of_mem _ hC)
  · rcases List.mem_append.1 hC with hC | hC
    · exact hparts.two_le_length C hC
    · exact h.two_le_length C (List.mem_cons_of_mem _ hC)
  · rw [List.flatten_append, List.nodup_append]
    exact ⟨hparts.nodup, hothers,
      fun v hv w hw => hdisjoint v (mem_of_mem_components hv) w hw⟩

/-- **What a step can do.**  A step of a sweep that is over changes nothing.  Any other step searches the
next component through its least node and puts the components of its other nodes in front. -/
lemma step_cases {sweep : Sweep n} (h : Inv sweep.pending) (g : Digraph n) (limits : CycleLimits) :
    ((sweep.pending = [] ∨ sweep.tally.truncated = true) ∧ step g limits sweep = sweep) ∨
      ∃ start rest others, sweep.pending = (start :: rest) :: others ∧
        sweep.tally.truncated = false ∧
        step g limits sweep =
          { pending := g.components rest ++ others
            tally := (searchIn g limits (start :: rest) start).cycles sweep.tally } := by
  obtain ⟨pending, tally⟩ := sweep
  by_cases htruncated : tally.truncated = true
  · exact Or.inl ⟨Or.inr htruncated, by rw [step, if_pos htruncated]⟩
  · rcases pending with _ | ⟨_ | ⟨start, rest⟩, others⟩
    · exact Or.inl ⟨Or.inl rfl, by rw [step, if_neg htruncated]⟩
    · exact absurd (h.two_le_length [] List.mem_cons_self) (by simp)
    · refine Or.inr ⟨start, rest, others, rfl, Bool.eq_false_iff.2 htruncated, ?_⟩
      rw [step, if_neg htruncated]

/-- A step keeps the pending components in order. -/
lemma Inv.step {sweep : Sweep n} (h : Inv sweep.pending) (limits : CycleLimits) :
    Inv (step g limits sweep).pending := by
  obtain ⟨-, hstep⟩ | ⟨start, rest, others, hpending, -, hstep⟩ := step_cases h g limits
  · rw [hstep]
    exact h
  · rw [hpending] at h
    rw [hstep]
    exact h.next

/-- However many steps are made, the pending components are in order. -/
lemma Inv.run {sweep : Sweep n} (h : Inv sweep.pending) (limits : CycleLimits) (k : ℕ) :
    Inv (run g limits k sweep).pending := by
  induction k generalizing sweep with
  | zero => exact h
  | succ k ih => exact ih (h.step limits)

/-- The last step of a run may be split off. -/
lemma run_succ (g : Digraph n) (limits : CycleLimits) (k : ℕ) (sweep : Sweep n) :
    run g limits (k + 1) sweep = step g limits (run g limits k sweep) := by
  induction k generalizing sweep with
  | zero => rfl
  | succ k ih => exact ih (step g limits sweep)

/-- A sweep that does not change in a step stays as it is. -/
lemma run_of_step_eq {limits : CycleLimits} {sweep : Sweep n} (h : step g limits sweep = sweep)
    (k : ℕ) : run g limits k sweep = sweep := by
  induction k with
  | zero => rfl
  | succ k ih => rw [run_succ, ih, h]

/-- **A sweep comes to an end.**  Each step takes one node out for good, so that no component is pending
after as many steps as the components have nodes, unless the tally was cut short. -/
lemma pending_run_eq_nil_or {sweep : Sweep n} (h : Inv sweep.pending) (limits : CycleLimits) {k : ℕ}
    (hk : (sweep.pending.map List.length).sum ≤ k) :
    (run g limits k sweep).pending = [] ∨ (run g limits k sweep).tally.truncated = true := by
  induction k generalizing sweep with
  | zero =>
    refine Or.inl (List.eq_nil_iff_forall_not_mem.2 fun C hC => ?_)
    have hlength : C.length ≤ 0 := (List.le_sum_of_mem (List.mem_map_of_mem hC)).trans hk
    have htwo := h.two_le_length C hC
    omega
  | succ k ih =>
    obtain ⟨hover, hstep⟩ | ⟨start, rest, others, hpending, -, hstep⟩ := step_cases h g limits
    · rw [run_of_step_eq hstep]
      exact hover
    · refine ih (h.step limits) ?_
      have hparts := g.sum_length_components_le rest
      rw [hpending, List.map_cons, List.sum_cons, List.length_cons] at hk
      rw [hstep, List.map_append, List.sum_append]
      omega

/-! ## The list of a sweep -/

/-- The cycles that `k` steps of a sweep over some components list, without limits. -/
def listing (g : Digraph n) : ℕ → List (List (Fin n)) → List (List (Fin n))
  | 0, _ => []
  | _ + 1, [] => []
  | k + 1, [] :: others => listing g k others
  | k + 1, (start :: rest) :: others =>
    (searchIn g .unbounded (start :: rest) start).throughStart ++
      listing g k (g.components rest ++ others)

/-- A sweep records its list of cycles, as far as the bound on the length admits them, until the
tally is cut short. -/
lemma tally_run {limits : CycleLimits} (hbound : limits.maxCycleLength ≠ some 0) (k : ℕ)
    (sweep : Sweep n) :
    (run g limits k sweep).tally =
      sweep.tally.noteAll limits ((listing g k sweep.pending).filter limits.admits) := by
  induction k generalizing sweep with
  | zero => rfl
  | succ k ih =>
    rw [run, ih]
    by_cases htruncated : sweep.tally.truncated = true
    · rw [step, if_pos htruncated, Tally.noteAll_of_truncated _ htruncated,
        Tally.noteAll_of_truncated _ htruncated]
    · rw [step, if_neg htruncated]
      rcases hpending : sweep.pending with _ | ⟨_ | ⟨start, rest⟩, others⟩
      · have hnil : listing g k sweep.pending = [] := by
          rw [hpending]
          cases k <;> rfl
        rw [hnil]
        rfl
      · rfl
      · have hsearch : (searchIn g limits (start :: rest) start).throughStart =
            (searchIn g .unbounded (start :: rest) start).throughStart.filter limits.admits :=
          Search.throughStart_eq_filter hbound
        rw [listing, List.filter_append, Tally.noteAll_append, ← hsearch]
        exact congrArg (fun tally => Tally.noteAll limits tally _) (Search.cycles_eq_noteAll _ _)

/-- The cycles that a sweep lists have two or more nodes, all in one component. -/
lemma of_mem_listing {k : ℕ} {pending : List (List (Fin n))} {c : List (Fin n)}
    (hc : c ∈ listing g k pending) :
    2 ≤ c.length ∧ IsSimpleCycle g.Edge c ∧ ∃ C ∈ pending, ∀ v ∈ c, v ∈ C := by
  induction k generalizing pending with
  | zero => simp [listing] at hc
  | succ k ih =>
    rcases pending with _ | ⟨_ | ⟨start, rest⟩, others⟩
    · simp [listing] at hc
    · obtain ⟨htwo, hcycle, C, hC, hcC⟩ := ih hc
      exact ⟨htwo, hcycle, C, List.mem_cons_of_mem _ hC, hcC⟩
    · rw [listing, List.mem_append] at hc
      rcases hc with hc | hc
      · obtain ⟨-, htwo, hscope, hcycle⟩ := (Search.mem_throughStart_iff rfl).1 hc
        refine ⟨htwo, hcycle, start :: rest, List.mem_cons_self, fun v hv => ?_⟩
        exact (NodeSet.contains_ofList _ v).1 (hscope v hv)
      · obtain ⟨htwo, hcycle, C, hC, hcC⟩ := ih hc
        rcases List.mem_append.1 hC with hC | hC
        · refine ⟨htwo, hcycle, start :: rest, List.mem_cons_self, fun v hv => ?_⟩
          exact List.mem_cons_of_mem start
            (mem_of_mem_components (List.mem_flatten_of_mem hC (hcC v hv)))
        · exact ⟨htwo, hcycle, C, List.mem_cons_of_mem _ hC, hcC⟩

/-- The cycles that a sweep lists begin with their least node. -/
lemma leastFirst_of_mem_listing {k : ℕ} {pending : List (List (Fin n))} (h : Inv pending)
    {c : List (Fin n)} (hc : c ∈ listing g k pending) : LeastFirst c := by
  induction k generalizing pending with
  | zero => simp [listing] at hc
  | succ k ih =>
    rcases pending with _ | ⟨_ | ⟨start, rest⟩, others⟩
    · simp [listing] at hc
    · exact absurd (h.two_le_length [] List.mem_cons_self) (by simp)
    · rw [listing, List.mem_append] at hc
      rcases hc with hc | hc
      · obtain ⟨hhead, -, hscope, -⟩ := (Search.mem_throughStart_iff rfl).1 hc
        intro first hfirst v hv
        obtain rfl : first = start := Option.some.inj (hfirst.symm.trans hhead)
        exact h.start_le ((NodeSet.contains_ofList _ v).1 (hscope v hv))
      · exact ih h.next hc

/-- **A sweep misses no cycle.**  A simple cycle of two or more nodes inside a component is listed,
from its least node on, if there are as many steps as nodes in the components. -/
lemma mem_listing {k : ℕ} {pending : List (List (Fin n))} (h : Inv pending)
    (hk : (pending.map List.length).sum ≤ k) {c C : List (Fin n)} (hC : C ∈ pending)
    (hcC : ∀ v ∈ c, v ∈ C) (hcycle : IsSimpleCycle g.Edge c) (htwo : 2 ≤ c.length)
    (hfirst : LeastFirst c) : c ∈ listing g k pending := by
  induction k generalizing pending C with
  | zero =>
    have hlength : C.length ≤ 0 := (List.le_sum_of_mem (List.mem_map_of_mem hC)).trans hk
    have htwoC := h.two_le_length C hC
    omega
  | succ k ih =>
    rcases pending with _ | ⟨_ | ⟨start, rest⟩, others⟩
    · exact absurd hC List.not_mem_nil
    · exact absurd (h.two_le_length [] List.mem_cons_self) (by simp)
    · have hparts := g.sum_length_components_le rest
      have hk' : ((g.components rest ++ others).map List.length).sum ≤ k := by
        rw [List.map_append, List.sum_append]
        rw [List.map_cons, List.sum_cons, List.length_cons] at hk
        omega
      rw [listing, List.mem_append]
      rcases List.mem_cons.1 hC with rfl | hC
      · by_cases hstart : start ∈ c
        · refine Or.inl ((Search.mem_throughStart_iff rfl).2 ⟨?_, htwo, fun v hv => ?_, hcycle⟩)
          · obtain ⟨first, l, rfl⟩ := List.exists_cons_of_ne_nil hcycle.ne_nil
            have hle : first ≤ start := hfirst first rfl start hstart
            have hge : start ≤ first := h.start_le (hcC first List.mem_cons_self)
            exact congrArg some (le_antisymm hle hge)
          · exact (NodeSet.contains_ofList _ v).2 (hcC v hv)
        · obtain ⟨D, hD, hcD⟩ := hcycle.exists_component_of_notMem htwo hcC hstart
          exact Or.inr (ih h.next hk' (List.mem_append_left _ hD) hcD)
      · exact Or.inr (ih h.next hk' (List.mem_append_right _ hC) hcC)

/-- No cycle that a sweep lists later begins with a node that was taken out. -/
lemma head?_ne_of_mem_listing {start : Fin n} {rest : List (Fin n)} {others : List (List (Fin n))}
    (h : Inv ((start :: rest) :: others)) {k : ℕ} {c : List (Fin n)}
    (hc : c ∈ listing g k (g.components rest ++ others)) : c.head? ≠ some start := by
  intro hhead
  obtain ⟨-, -, C, hC, hcC⟩ := of_mem_listing hc
  have hstartC : start ∈ C := hcC start (List.mem_of_mem_head? hhead)
  -- the component that holds the cycle comes later, so the start is not in it
  have hnodup := h.nodup
  rw [List.flatten_cons, List.cons_append, List.nodup_cons, List.mem_append, not_or] at hnodup
  rcases List.mem_append.1 hC with hC | hC
  · exact hnodup.1.1 (mem_of_mem_components (List.mem_flatten.2 ⟨C, hC, hstartC⟩))
  · exact hnodup.1.2 (List.mem_flatten.2 ⟨C, hC, hstartC⟩)

/-- A sweep lists no cycle twice, provided that no node has a successor twice. -/
lemma nodup_listing {k : ℕ} {pending : List (List (Fin n))} (h : Inv pending)
    (hsuccessors : ∀ v, (g.successors v).Nodup) : (listing g k pending).Nodup := by
  induction k generalizing pending with
  | zero => exact List.nodup_nil
  | succ k ih =>
    rcases pending with _ | ⟨_ | ⟨start, rest⟩, others⟩
    · exact List.nodup_nil
    · exact ih ⟨fun C hC => h.ascending C (List.mem_cons_of_mem _ hC),
        fun C hC => h.two_le_length C (List.mem_cons_of_mem _ hC), h.nodup⟩
    · rw [listing, List.nodup_append]
      refine ⟨Search.nodup_throughStart rfl hsuccessors, ih h.next, ?_⟩
      rintro c hc _ hc' rfl
      exact head?_ne_of_mem_listing h hc' ((Search.mem_throughStart_iff rfl).1 hc).1

end Sweep

namespace Digraph

/-! ## All cycles -/

/-- The cycles of one node, in the order of the nodes. -/
def selfCycles (g : Digraph n) : List (List (Fin n)) :=
  ((List.finRange n).filter fun v => (g.successors v).contains v).map fun v => [v]

/-- The simple cycles of the graph, in the order in which they are found without limits. -/
def allCycles (g : Digraph n) : List (List (Fin n)) :=
  g.selfCycles ++ Sweep.listing g n (g.components (List.finRange n))

/-- The pass over single nodes records the cycles of one node until the tally is cut short. -/
lemma loops_eq_noteAll (g : Digraph n) (limits : CycleLimits) :
    g.loops limits = Tally.empty.noteAll limits g.selfCycles := by
  have hfold : ∀ (nodes : List (Fin n)) (tally : Tally n),
      nodes.foldl (g.recordLoop limits) tally =
        tally.noteAll limits
          ((nodes.filter fun v => (g.successors v).contains v).map fun v => [v]) := by
    intro nodes
    induction nodes with
    | nil => exact fun _ => rfl
    | cons v nodes ih =>
      intro tally
      rw [List.foldl_cons, ih, recordLoop, List.filter_cons]
      by_cases hself : (g.successors v).contains v = true
      · rw [if_pos hself, List.map_cons, Tally.noteAll, Tally.noteAll, List.foldl_cons, Tally.note,
          hself]
        cases tally.truncated <;> rfl
      · rw [if_neg hself, Bool.eq_false_iff.2 hself, Bool.and_false, if_neg Bool.false_ne_true]
  exact hfold _ _

/-- The cycles of one node are the nodes with an edge to themselves. -/
lemma mem_selfCycles_iff {c : List (Fin n)} :
    c ∈ g.selfCycles ↔ c.length = 1 ∧ IsSimpleCycle g.Edge c := by
  rw [selfCycles, List.mem_map]
  constructor
  · rintro ⟨v, hv, rfl⟩
    have hself : g.Edge v v := List.contains_iff_mem.1 (List.mem_filter.1 hv).2
    exact ⟨rfl, List.cons_ne_nil _ _, List.nodup_singleton v,
      (Cycle.chain_singleton _ _).2 hself⟩
  · rintro ⟨hlength, hcycle⟩
    obtain ⟨v, rfl⟩ := List.length_eq_one_iff.1 hlength
    have hself : g.Edge v v := (Cycle.chain_singleton _ _).1 hcycle.chain
    exact ⟨v, List.mem_filter.2 ⟨List.mem_finRange v, List.contains_iff_mem.2 hself⟩, rfl⟩

/-- Any bound on the length, unless it is zero, admits the cycles of one node. -/
lemma filter_admits_selfCycles (g : Digraph n) {limits : CycleLimits}
    (hzero : limits.maxCycleLength ≠ some 0) :
    g.selfCycles.filter limits.admits = g.selfCycles := by
  refine List.filter_eq_self.2 fun c hc => ?_
  refine (Option.all_eq_true _ _).2 fun bound hbound => decide_eq_true ?_
  have hone := (mem_selfCycles_iff.1 hc).1
  have hne : bound ≠ 0 := by
    rintro rfl
    exact hzero hbound
  omega

/-- **All cycles are listed.**  The list of cycles holds the simple cycles of the graph, each from
its least node on. -/
theorem mem_allCycles_iff {c : List (Fin n)} :
    c ∈ g.allCycles ↔ IsSimpleCycle g.Edge c ∧ LeastFirst c := by
  have hinv : Sweep.Inv (g.components (List.finRange n)) :=
    Sweep.inv_components g (List.pairwise_lt_finRange n)
  rw [allCycles, List.mem_append, mem_selfCycles_iff]
  constructor
  · rintro (⟨hlength, hcycle⟩ | hc)
    · obtain ⟨v, rfl⟩ := List.length_eq_one_iff.1 hlength
      refine ⟨hcycle, fun first hfirst w hw => ?_⟩
      obtain rfl : v = first := Option.some.inj hfirst
      exact (List.mem_singleton.1 hw).ge
    · exact ⟨(Sweep.of_mem_listing hc).2.1, Sweep.leastFirst_of_mem_listing hinv hc⟩
  · rintro ⟨hcycle, hfirst⟩
    have hpos : 0 < c.length := List.length_pos_of_ne_nil hcycle.ne_nil
    by_cases hone : c.length = 1
    · exact Or.inl ⟨hone, hcycle⟩
    · have htwo : 2 ≤ c.length := by omega
      obtain ⟨C, hC, hcC⟩ := hcycle.exists_component htwo fun v _ => List.mem_finRange v
      have hsteps : ((g.components (List.finRange n)).map List.length).sum ≤ n := by
        simpa using g.sum_length_components_le (List.finRange n)
      exact Or.inr (Sweep.mem_listing hinv hsteps hC hcC hcycle htwo hfirst)

/-- **No cycle is listed twice**, provided that no node has a successor twice. -/
theorem nodup_allCycles (hsuccessors : ∀ v, (g.successors v).Nodup) : g.allCycles.Nodup := by
  have hinv : Sweep.Inv (g.components (List.finRange n)) :=
    Sweep.inv_components g (List.pairwise_lt_finRange n)
  rw [allCycles, List.nodup_append]
  refine ⟨?_, Sweep.nodup_listing hinv hsuccessors, ?_⟩
  · exact ((List.nodup_finRange n).filter _).map fun _ _ h => (List.cons.inj h).1
  · rintro c hc _ hc' rfl
    have hone := (mem_selfCycles_iff.1 hc).1
    have htwo := (Sweep.of_mem_listing hc').1
    omega

/-- **What the limits do.**  The cycles that the bound on the length admits are recorded in the order
of the list of all cycles, until the tally is cut short. -/
theorem cycles_eq_noteAll (g : Digraph n) (limits : CycleLimits) :
    g.cycles limits = Tally.empty.noteAll limits (g.allCycles.filter limits.admits) := by
  have hlong : ∀ c ∈ Sweep.listing g n (g.components (List.finRange n)), 2 ≤ c.length :=
    fun c hc => (Sweep.of_mem_listing hc).1
  rw [cycles]
  by_cases hzero : limits.maxCycleLength = some 0
  · have hnil : g.allCycles.filter limits.admits = [] := by
      refine List.filter_eq_nil_iff.2 fun c hc => ?_
      have hpos := List.length_pos_of_ne_nil (mem_allCycles_iff.1 hc).1.ne_nil
      rw [CycleLimits.admits_iff hzero]
      omega
    rw [if_pos hzero, hnil]
    rfl
  rw [if_neg hzero, allCycles, List.filter_append, filter_admits_selfCycles g hzero,
    Tally.noteAll_append, ← loops_eq_noteAll]
  by_cases hone : limits.maxCycleLength = some 1
  · have hnil : (Sweep.listing g n (g.components (List.finRange n))).filter limits.admits = [] := by
      refine List.filter_eq_nil_iff.2 fun c hc => ?_
      have htwo := hlong c hc
      rw [CycleLimits.admits_iff hone]
      omega
    rw [if_pos hone, hnil]
    rfl
  · rw [if_neg hone]
    exact Sweep.tally_run hzero n (Sweep.begin g (g.loops limits))

end Digraph

end CppDeps
