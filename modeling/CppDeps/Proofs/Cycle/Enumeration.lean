import CppDeps.Cycle.Search
import CppDeps.Proofs.Digraph.Reachability
import Mathlib.Data.List.Cycle
import Mathlib.Data.List.Lattice

/-!
# Simple cycles and their plain enumeration

A simple cycle is a list of different nodes in which each node has an edge to the next one and the
last node has an edge to the first.

`Search.cyclesVia` lists the cycles that continue a given path with a given edge by plain
backtracking, with no memory of what failed before.  It is the yardstick for the search: what the
search records is this list, in this order.  Here it is shown to list every cycle
(`mem_throughStart_iff`) once (`nodup_throughStart`), and a bound on the length of cycles to do
nothing but to filter it (`throughStart_eq_filter`).
-/

namespace CppDeps

/-- A simple cycle of a relation: a list of different nodes, at least one, in which each is related
to the next and the last to the first. -/
structure IsSimpleCycle {α : Type*} (edge : α → α → Prop) (nodes : List α) : Prop where
  ne_nil : nodes ≠ []
  nodup : nodes.Nodup
  chain : (nodes : Cycle α).Chain edge

variable {n : ℕ}

/-- Is a cycle within the bound on the length of cycles? -/
def CycleLimits.admits {α : Type*} (limits : CycleLimits) (cycle : List α) : Bool :=
  limits.maxCycleLength.all fun bound => decide (cycle.length ≤ bound)

/-- Under a bound the cycles up to that length are admitted. -/
lemma CycleLimits.admits_iff {α : Type*} {limits : CycleLimits} {bound : ℕ}
    (hbound : limits.maxCycleLength = some bound) (cycle : List α) :
    limits.admits cycle = true ↔ cycle.length ≤ bound := by
  rw [admits, hbound, Option.all_some, decide_eq_true_iff]

namespace Search

/-! ## Continuing a path -/

/-- May a path of some length grow by one node? -/
def roomFor (s : Search n) (length : ℕ) : Bool :=
  s.limits.maxCycleLength.all fun bound => decide (length < bound)

/-- The cycles that continue a path with an edge to `u`.  The path is written backwards, from its
last node to its first. -/
def cyclesVia (s : Search n) (trail : List (Fin n)) (u : Fin n) : List (List (Fin n)) :=
  if s.inScope u = false ∨ trail.head? = some u then []
  else if u = s.start then [trail.reverse]
  else if u ∉ trail ∧ trail.length < n ∧ s.roomFor trail.length = true then
    (s.graph.successors u).flatMap (s.cyclesVia (u :: trail))
  else []
  termination_by n - trail.length
  decreasing_by
    rename_i h
    rw [List.length_cons]
    omega

/-- The cycles through the start node, by plain backtracking. -/
def throughStart (s : Search n) : List (List (Fin n)) :=
  (s.graph.successors s.start).flatMap (s.cyclesVia [s.start])

variable {s : Search n} {trail : List (Fin n)} {u : Fin n} {c : List (Fin n)}

/-- Nothing continues a path with an edge out of scope or with an edge from a node to itself. -/
lemma cyclesVia_of_skip (h : s.inScope u = false ∨ trail.head? = some u) :
    s.cyclesVia trail u = [] := by
  rw [cyclesVia, if_pos h]

/-- An edge back to the start closes the path. -/
lemma cyclesVia_of_start (hskip : ¬ (s.inScope u = false ∨ trail.head? = some u))
    (hstart : u = s.start) : s.cyclesVia trail u = [trail.reverse] := by
  rw [cyclesVia, if_neg hskip, if_pos hstart]

/-- An edge to a new node continues the path if there is room. -/
lemma cyclesVia_of_enter (hskip : ¬ (s.inScope u = false ∨ trail.head? = some u))
    (hstart : u ≠ s.start) (hnodup : trail.Nodup) (hu : u ∉ trail)
    (hroom : s.roomFor trail.length = true) :
    s.cyclesVia trail u = (s.graph.successors u).flatMap (s.cyclesVia (u :: trail)) := by
  have hlength : (u :: trail).length ≤ n := by
    simpa using (List.nodup_cons.2 ⟨hu, hnodup⟩).length_le_card
  rw [cyclesVia, if_neg hskip, if_neg hstart, if_pos ⟨hu, hlength, hroom⟩]

/-- Nothing continues a path with an edge to a node that is on it, other than the start. -/
lemma cyclesVia_of_mem (hstart : u ≠ s.start) (hu : u ∈ trail) : s.cyclesVia trail u = [] := by
  have henter : ¬ (u ∉ trail ∧ trail.length < n ∧ s.roomFor trail.length = true) := fun h => h.1 hu
  rw [cyclesVia, if_neg hstart, if_neg henter, ite_self]

/-- Nothing continues a path that has no room for a new node. -/
lemma cyclesVia_of_full (hstart : u ≠ s.start) (hroom : s.roomFor trail.length = false) :
    s.cyclesVia trail u = [] := by
  have henter : ¬ (u ∉ trail ∧ trail.length < n ∧ s.roomFor trail.length = true) :=
    fun h => Bool.false_ne_true (hroom.symm.trans h.2.2)
  rw [cyclesVia, if_neg hstart, if_neg henter, ite_self]

/-- **Dead ends.**  No cycle continues a path into a set of nodes from which edges in scope lead only
back to the set or to nodes of the path other than the start. -/
lemma cyclesVia_eq_nil_of_dead (dead : Fin n → Prop)
    (hdead : ∀ v, dead v → ∀ w ∈ s.graph.successors v, s.inScope w = true →
      w ≠ s.start ∧ (dead w ∨ w ∈ trail))
    (hstart : u ≠ s.start) (hu : dead u) : s.cyclesVia trail u = [] := by
  induction trail, u using cyclesVia.induct s with
  | case1 trail u h => exact cyclesVia_of_skip h
  | case2 trail h => exact absurd rfl hstart
  | case3 trail u hskip _ h ih =>
    rw [cyclesVia, if_neg hskip, if_neg hstart, if_pos h, List.flatMap_eq_nil_iff]
    intro w hw
    by_cases hscope : s.inScope w = true
    · obtain ⟨hwstart, hwdead | hwtrail⟩ := hdead u hu w hw hscope
      · refine ih w ?_ hwstart hwdead
        intro v hv x hx hxscope
        obtain ⟨hxstart, hxdead⟩ := hdead v hv x hx hxscope
        exact ⟨hxstart, hxdead.imp_right (List.mem_cons_of_mem u)⟩
      · exact cyclesVia_of_mem hwstart (List.mem_cons_of_mem u hwtrail)
    · exact cyclesVia_of_skip (Or.inl (Bool.eq_false_iff.2 hscope))
  | case4 trail u hskip _ h => rw [cyclesVia, if_neg hskip, if_neg hstart, if_neg h]

/-! ## Completeness -/

/-- New nodes in scope that close a path over an edge to `u`: edges lead along them and from the last
of them to the start, and `u` is the first of them, or the start if there are none. -/
structure Closes (s : Search n) (trail : List (Fin n)) (u : Fin n) (l : List (Fin n)) : Prop where
  head?_eq : (l ++ [s.start]).head? = some u
  not_last : trail.head? ≠ some u
  inScope : ∀ x ∈ l ++ [s.start], s.inScope x = true
  chain : (l ++ [s.start]).IsChain s.graph.Edge
  new : ∀ x ∈ l, x ∉ trail
  nodup : l.Nodup

/-- Whatever closes a path over an edge, the edge is not skipped. -/
lemma Closes.not_skip {l : List (Fin n)} (h : s.Closes trail u l) :
    ¬ (s.inScope u = false ∨ trail.head? = some u) := by
  rintro (hout | hlast)
  · have hin := h.inScope u (List.mem_of_mem_head? h.head?_eq)
    exact Bool.false_ne_true (hout.symm.trans hin)
  · exact h.not_last hlast

/-- An edge back to the start closes a path with no more nodes. -/
lemma closes_start_iff (hskip : ¬ (s.inScope s.start = false ∨ trail.head? = some s.start))
    (hstart : s.start ∈ trail) {l : List (Fin n)} : s.Closes trail s.start l ↔ l = [] := by
  obtain ⟨hscope, hlast⟩ := not_or.1 hskip
  constructor
  · intro h
    cases l with
    | nil => rfl
    | cons x l =>
      obtain rfl : x = s.start := Option.some.inj h.head?_eq
      exact absurd hstart (h.new _ List.mem_cons_self)
  · rintro rfl
    exact ⟨rfl, hlast, by simpa using hscope, by simp, by simp, List.nodup_nil⟩

/-- An edge to another node closes a path if the node is new and an edge from it closes the path
that enters it. -/
lemma closes_iff_of_ne (hskip : ¬ (s.inScope u = false ∨ trail.head? = some u)) (hu : u ≠ s.start)
    {l : List (Fin n)} :
    s.Closes trail u l ↔ u ∉ trail ∧ ∃ l', l = u :: l' ∧
      ∃ w ∈ s.graph.successors u, s.Closes (u :: trail) w l' := by
  obtain ⟨hscope, hlast⟩ := not_or.1 hskip
  constructor
  · rintro ⟨hhead, -, hin, hchain, hnew, hnodup⟩
    cases l with
    | nil => exact absurd (Option.some.inj hhead).symm hu
    | cons x l =>
      obtain rfl : x = u := Option.some.inj hhead
      obtain ⟨hxl, hl⟩ := List.nodup_cons.1 hnodup
      obtain ⟨w, hw⟩ : ∃ w, (l ++ [s.start]).head? = some w := by
        cases l with
        | nil => exact ⟨_, rfl⟩
        | cons w l => exact ⟨w, rfl⟩
      have hxw : x ≠ w := by
        rintro rfl
        rcases List.mem_append.1 (List.mem_of_mem_head? hw) with hxl' | hxs
        · exact hxl hxl'
        · exact hu (List.mem_singleton.1 hxs)
      refine ⟨hnew x List.mem_cons_self, l, rfl, w, List.IsChain.rel_head? hchain hw, hw, ?_,
        fun y hy => hin y (List.mem_cons_of_mem x hy), hchain.tail, fun y hy hyt => ?_, hl⟩
      · simpa using hxw
      · rcases List.mem_cons.1 hyt with rfl | hyt
        · exact hxl hy
        · exact hnew y (List.mem_cons_of_mem x hy) hyt
  · rintro ⟨hut, l, rfl, w, hw, hhead, -, hin, hchain, hnew, hnodup⟩
    refine ⟨rfl, hlast, ?_, ?_, ?_, ?_⟩
    · rw [List.cons_append, List.forall_mem_cons]
      exact ⟨by simpa using hscope, hin⟩
    · rw [List.cons_append]
      refine List.IsChain.cons hchain fun y hy => ?_
      obtain rfl : y = w := Option.some.inj (hy.symm.trans hhead)
      exact hw
    · rw [List.forall_mem_cons]
      exact ⟨hut, fun x hx hxt => hnew x hx (List.mem_cons_of_mem u hxt)⟩
    · exact List.nodup_cons.2 ⟨fun hul => hnew u hul List.mem_cons_self, hnodup⟩

/-- **What plain backtracking lists.**  Without a bound on their length, the cycles that continue a
path with an edge to `u` are all that can be made of the path and new nodes that close it. -/
lemma mem_cyclesVia_iff (hbound : s.limits.maxCycleLength = none) (hnodup : trail.Nodup)
    (hstart : s.start ∈ trail) :
    c ∈ s.cyclesVia trail u ↔ ∃ l, c = trail.reverse ++ l ∧ s.Closes trail u l := by
  induction trail, u using cyclesVia.induct s with
  | case1 trail u h =>
    rw [cyclesVia_of_skip h]
    exact iff_of_false List.not_mem_nil fun ⟨_, _, hcloses⟩ => hcloses.not_skip h
  | case2 trail hskip =>
    rw [cyclesVia_of_start hskip rfl, List.mem_singleton]
    simp only [closes_start_iff hskip hstart, exists_eq_right, List.append_nil]
  | case3 trail u hskip hu h ih =>
    have hnodup' : (u :: trail).Nodup := List.nodup_cons.2 ⟨h.1, hnodup⟩
    have hstart' : s.start ∈ u :: trail := List.mem_cons_of_mem u hstart
    rw [cyclesVia, if_neg hskip, if_neg hu, if_pos h, List.mem_flatMap]
    constructor
    · rintro ⟨w, hw, hc⟩
      obtain ⟨l, rfl, hcloses⟩ := (ih w hnodup' hstart').1 hc
      refine ⟨u :: l, by simp, (closes_iff_of_ne hskip hu).2 ⟨h.1, l, rfl, w, hw, hcloses⟩⟩
    · rintro ⟨l, rfl, hcloses⟩
      obtain ⟨-, l, rfl, w, hw, hcloses⟩ := (closes_iff_of_ne hskip hu).1 hcloses
      exact ⟨w, hw, (ih w hnodup' hstart').2 ⟨l, by simp, hcloses⟩⟩
  | case4 trail u hskip hu h =>
    rw [cyclesVia, if_neg hskip, if_neg hu, if_neg h]
    refine iff_of_false List.not_mem_nil ?_
    rintro ⟨l, -, hcloses⟩
    have hnew : u ∉ trail := ((closes_iff_of_ne hskip hu).1 hcloses).1
    have hlength : (u :: trail).length ≤ n := by
      simpa using (List.nodup_cons.2 ⟨hnew, hnodup⟩).length_le_card
    exact h ⟨hnew, hlength, by simp [roomFor, hbound]⟩

/-- What closes the path of the start alone makes a simple cycle with it. -/
lemma exists_closes_start_iff {l : List (Fin n)} :
    (∃ u ∈ s.graph.successors s.start, s.Closes [s.start] u l) ↔
      l ≠ [] ∧ (∀ v ∈ s.start :: l, s.inScope v = true) ∧
        IsSimpleCycle s.graph.Edge (s.start :: l) := by
  constructor
  · rintro ⟨u, hu, hhead, hlast, hscope, hchain, hnew, hnodup⟩
    refine ⟨?_, fun v hv => hscope v ?_, List.cons_ne_nil _ _, ?_, ?_⟩
    · rintro rfl
      exact hlast hhead
    · simpa [or_comm] using hv
    · exact List.nodup_cons.2 ⟨fun h => hnew _ h List.mem_cons_self, hnodup⟩
    · rw [Cycle.chain_coe_cons]
      refine List.IsChain.cons hchain fun y hy => ?_
      obtain rfl : y = u := Option.some.inj (hy.symm.trans hhead)
      exact hu
  · rintro ⟨hne, hscope, hc⟩
    obtain ⟨u, l, rfl⟩ := List.exists_cons_of_ne_nil hne
    have hchain : (s.start :: (u :: l ++ [s.start])).IsChain s.graph.Edge :=
      (Cycle.chain_coe_cons _ _ _).1 hc.chain
    obtain ⟨hnew, hnodup⟩ := List.nodup_cons.1 hc.nodup
    refine ⟨u, List.IsChain.rel_head? hchain rfl, rfl, ?_, ?_, hchain.tail, ?_, hnodup⟩
    · rw [List.head?_cons, ne_eq, Option.some.injEq]
      rintro rfl
      exact hnew List.mem_cons_self
    · intro v hv
      rcases List.mem_append.1 hv with hv | hv
      · exact hscope v (List.mem_cons_of_mem _ hv)
      · exact hscope v (List.mem_singleton.1 hv ▸ List.mem_cons_self)
    · intro x hx hxs
      exact hnew (List.mem_singleton.1 hxs ▸ hx)

/-- **The cycles through the start.**  Without a bound on their length, plain backtracking lists the
simple cycles of two or more nodes in scope whose first node is the start. -/
lemma mem_throughStart_iff (hbound : s.limits.maxCycleLength = none) :
    c ∈ s.throughStart ↔
      c.head? = some s.start ∧ 2 ≤ c.length ∧ (∀ v ∈ c, s.inScope v = true) ∧
        IsSimpleCycle s.graph.Edge c := by
  have hmem : ∀ u, c ∈ s.cyclesVia [s.start] u ↔ ∃ l, c = s.start :: l ∧ s.Closes [s.start] u l :=
    fun u => mem_cyclesVia_iff hbound (List.nodup_singleton _) List.mem_cons_self
  rw [throughStart, List.mem_flatMap]
  constructor
  · rintro ⟨u, hu, hc⟩
    obtain ⟨l, rfl, hcloses⟩ := (hmem u).1 hc
    obtain ⟨hne, hscope, hcycle⟩ := exists_closes_start_iff.1 ⟨u, hu, hcloses⟩
    have hpos : 0 < l.length := List.length_pos_of_ne_nil hne
    exact ⟨rfl, Nat.succ_le_succ hpos, hscope, hcycle⟩
  · rintro ⟨hhead, htwo, hscope, hcycle⟩
    obtain ⟨l, rfl⟩ : ∃ l, c = s.start :: l := List.head?_eq_some_iff.1 hhead
    have hne : l ≠ [] := by
      rintro rfl
      simp at htwo
    obtain ⟨u, hu, hcloses⟩ := exists_closes_start_iff.2 ⟨hne, hscope, hcycle⟩
    exact ⟨u, hu, (hmem u).2 ⟨l, rfl, hcloses⟩⟩

/-! ## No repetition -/

/-- A cycle continues a path with one edge only. -/
lemma cyclesVia_inj (hbound : s.limits.maxCycleLength = none) (hnodup : trail.Nodup)
    (hstart : s.start ∈ trail) {v w : Fin n} (hv : c ∈ s.cyclesVia trail v)
    (hw : c ∈ s.cyclesVia trail w) : v = w := by
  obtain ⟨l, rfl, hclosesv⟩ := (mem_cyclesVia_iff hbound hnodup hstart).1 hv
  obtain ⟨l', hl', hclosesw⟩ := (mem_cyclesVia_iff hbound hnodup hstart).1 hw
  obtain rfl : l = l' := List.append_cancel_left hl'
  exact Option.some.inj (hclosesv.head?_eq.symm.trans hclosesw.head?_eq)

/-- No cycle is listed twice, provided that no node has a successor twice. -/
lemma nodup_cyclesVia (hbound : s.limits.maxCycleLength = none)
    (hsuccessors : ∀ v, (s.graph.successors v).Nodup) (hnodup : trail.Nodup)
    (hstart : s.start ∈ trail) : (s.cyclesVia trail u).Nodup := by
  induction trail, u using cyclesVia.induct s with
  | case1 trail u h =>
    rw [cyclesVia_of_skip h]
    exact List.nodup_nil
  | case2 trail hskip =>
    rw [cyclesVia_of_start hskip rfl]
    exact List.nodup_singleton _
  | case3 trail u hskip hu h ih =>
    have hnodup' : (u :: trail).Nodup := List.nodup_cons.2 ⟨h.1, hnodup⟩
    have hstart' : s.start ∈ u :: trail := List.mem_cons_of_mem u hstart
    rw [cyclesVia, if_neg hskip, if_neg hu, if_pos h, List.nodup_flatMap]
    refine ⟨fun w _ => ih w hnodup' hstart', (hsuccessors u).imp fun hne => ?_⟩
    rw [Function.onFun, List.disjoint_left]
    intro c hc hc'
    exact hne (cyclesVia_inj hbound hnodup' hstart' hc hc')
  | case4 trail u hskip hu h =>
    rw [cyclesVia, if_neg hskip, if_neg hu, if_neg h]
    exact List.nodup_nil

/-- No cycle through the start is listed twice, provided that no node has a successor twice. -/
lemma nodup_throughStart (hbound : s.limits.maxCycleLength = none)
    (hsuccessors : ∀ v, (s.graph.successors v).Nodup) : s.throughStart.Nodup := by
  have hmem : s.start ∈ [s.start] := List.mem_singleton_self s.start
  have hnodup : [s.start].Nodup := List.nodup_singleton _
  rw [throughStart, List.nodup_flatMap]
  refine ⟨fun w _ => nodup_cyclesVia hbound hsuccessors hnodup hmem,
    (hsuccessors s.start).imp fun hne => ?_⟩
  rw [Function.onFun, List.disjoint_left]
  intro c hc hc'
  exact hne (cyclesVia_inj hbound hnodup hmem hc hc')

/-! ## A bound on the length -/

/-- The search for the same cycles without limits. -/
def unlimited (s : Search n) : Search n :=
  { s with limits := .unbounded }

/-- A cycle that continues a path is at least as long as the path. -/
lemma length_le_of_mem_cyclesVia (hc : c ∈ s.cyclesVia trail u) : trail.length ≤ c.length := by
  induction trail, u using cyclesVia.induct s with
  | case1 trail u h => simp [cyclesVia_of_skip h] at hc
  | case2 trail hskip =>
    rw [cyclesVia_of_start hskip rfl, List.mem_singleton] at hc
    rw [hc, List.length_reverse]
  | case3 trail u hskip hu h ih =>
    rw [cyclesVia, if_neg hskip, if_neg hu, if_pos h, List.mem_flatMap] at hc
    obtain ⟨w, -, hw⟩ := hc
    exact (Nat.le_succ _).trans (ih w hw)
  | case4 trail u hskip hu h => simp [cyclesVia, hskip, hu, h] at hc

/-- A bound on the length keeps, of the cycles that continue a path, those that it admits. -/
lemma cyclesVia_eq_filter
    (hlength : s.limits.maxCycleLength.all (fun bound => decide (trail.length ≤ bound)) = true) :
    s.cyclesVia trail u = (s.unlimited.cyclesVia trail u).filter s.limits.admits := by
  induction trail, u using cyclesVia.induct s.unlimited with
  | case1 trail u h => rw [cyclesVia_of_skip h, cyclesVia_of_skip (s := s) h, List.filter_nil]
  | case2 trail hskip =>
    have hadmits : s.limits.admits trail.reverse = true := by
      rw [CycleLimits.admits, List.length_reverse]
      exact hlength
    rw [cyclesVia_of_start hskip rfl, cyclesVia_of_start (s := s) hskip rfl,
      List.filter_cons_of_pos hadmits, List.filter_nil]
  | case3 trail u hskip hu h ih =>
    have hskip' : ¬ (s.inScope u = false ∨ trail.head? = some u) := hskip
    have hu' : ¬ u = s.start := hu
    rw [cyclesVia.eq_1 s.unlimited, if_neg hskip, if_neg hu, if_pos h, List.filter_flatMap,
      cyclesVia.eq_1 s, if_neg hskip', if_neg hu']
    by_cases hroom : s.roomFor trail.length = true
    · rw [if_pos ⟨h.1, h.2.1, hroom⟩]
      exact List.flatMap_congr fun w _ => ih w hroom
    · -- the path has the greatest length allowed, so every longer one is filtered out
      have hfull : ¬ (u ∉ trail ∧ trail.length < n ∧ s.roomFor trail.length = true) :=
        fun h' => hroom h'.2.2
      rw [if_neg hfull, eq_comm, List.flatMap_eq_nil_iff]
      intro w _
      rw [List.filter_eq_nil_iff]
      intro c hc hadmits
      have hle : (u :: trail).length ≤ c.length := length_le_of_mem_cyclesVia hc
      refine hroom ((Option.all_eq_true _ _).2 fun bound hbound => ?_)
      have hcbound := (Option.all_eq_true _ _).1 hadmits bound hbound
      exact decide_eq_true (hle.trans (of_decide_eq_true hcbound))
  | case4 trail u hskip hu h =>
    have h' : ¬ (u ∉ trail ∧ trail.length < n ∧ s.roomFor trail.length = true) :=
      fun h' => h ⟨h'.1, h'.2.1, rfl⟩
    have hskip' : ¬ (s.inScope u = false ∨ trail.head? = some u) := hskip
    have hu' : ¬ u = s.start := hu
    rw [cyclesVia.eq_1 s.unlimited, if_neg hskip, if_neg hu, if_neg h, List.filter_nil,
      cyclesVia.eq_1 s, if_neg hskip', if_neg hu', if_neg h']

/-- A bound on the length, unless it is zero, keeps, of the cycles through the start, those that it
admits. -/
lemma throughStart_eq_filter (hbound : s.limits.maxCycleLength ≠ some 0) :
    s.throughStart = s.unlimited.throughStart.filter s.limits.admits := by
  rw [throughStart, throughStart, List.filter_flatMap]
  refine List.flatMap_congr fun w _ => cyclesVia_eq_filter ((Option.all_eq_true _ _).2 fun bound h => ?_)
  rw [List.length_singleton, decide_eq_true_iff, Nat.one_le_iff_ne_zero]
  rintro rfl
  exact hbound h

end Search

end CppDeps
