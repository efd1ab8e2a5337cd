import CppDeps.Digraph
import Mathlib.Logic.Relation
import Mathlib.Tactic

/-!
# What a node leads to

`spread` computes a set by repeated marking.  This file identifies that set: a node is marked at the
end exactly if it was marked before or if some node of the worklist leads to it without passing
through a node that was marked before (`contains_spread`).

From this the reachable sets of a graph, of the graph with its edges turned round and of the part of
it that lies in a set of nodes are the reflexive transitive closures of the corresponding edges.
-/

namespace CppDeps

open Relation

variable {n : ℕ}

/-! ## Sets of nodes -/

/-- Setting one entry of a vector changes that entry alone. -/
lemma get_set_val {α : Type*} (entries : Vector α n) (v w : Fin n) (a : α) :
    (entries.set v a v.isLt).get w = if v = w then a else entries.get w := by
  show (entries.set v a v.isLt)[w.val] = _
  by_cases hvw : v = w
  · subst hvw
    simp
  · rw [Vector.getElem_set_ne _ _ (fun e => hvw (Fin.ext e)), if_neg hvw]
    rfl

/-- The set of the nodes of a list added to a set. -/
lemma NodeSet.contains_foldl_insert (nodes : List (Fin n)) (s : NodeSet n) (v : Fin n) :
    (nodes.foldl NodeSet.insert s).contains v = true ↔ v ∈ nodes ∨ s.contains v = true := by
  induction nodes generalizing s with
  | nil => simp
  | cons w nodes ih =>
    rw [List.foldl_cons, ih, NodeSet.contains_insert, List.mem_cons, Bool.or_eq_true,
      decide_eq_true_iff, eq_comm (a := w)]
    tauto

/-- A node is in the set of a list exactly if it is in the list. -/
@[simp] lemma NodeSet.contains_ofList (nodes : List (Fin n)) (v : Fin n) :
    (NodeSet.ofList nodes).contains v = true ↔ v ∈ nodes := by
  simp [NodeSet.ofList, NodeSet.contains_foldl_insert]

/-! ## Spreading -/

/-- One step of spreading leads from a node to a successor that was not marked before. -/
def SpreadStep (next : Fin n → List (Fin n)) (marked : NodeSet n) (v w : Fin n) : Prop :=
  w ∈ next v ∧ ¬ marked.contains w = true

/-- Marking a node takes the steps to it away and no others. -/
lemma spreadStep_insert_iff {next : Fin n → List (Fin n)} {marked : NodeSet n} {u v w : Fin n} :
    SpreadStep next (marked.insert u) v w ↔ SpreadStep next marked v w ∧ u ≠ w := by
  rw [SpreadStep, SpreadStep, NodeSet.contains_insert, Bool.or_eq_true, decide_eq_true_iff]
  tauto

/-- A walk either avoids a node `u` or ends at it or avoids it after a last step away from it. -/
lemma SpreadStep.avoid_or_leave {next : Fin n → List (Fin n)} {marked : NodeSet n} {v w : Fin n}
    (u : Fin n) (h : ReflTransGen (SpreadStep next marked) v w) :
    (v ≠ u ∧ ReflTransGen (SpreadStep next (marked.insert u)) v w) ∨ u = w ∨
      ∃ x, SpreadStep next marked u x ∧ u ≠ x ∧
        ReflTransGen (SpreadStep next (marked.insert u)) x w := by
  induction h with
  | refl =>
    by_cases hvu : v = u
    · exact Or.inr (Or.inl hvu.symm)
    · exact Or.inl ⟨hvu, ReflTransGen.refl⟩
  | @tail y w _ hyw ih =>
    by_cases huw : u = w
    · exact Or.inr (Or.inl huw)
    · have hstep : SpreadStep next (marked.insert u) y w := spreadStep_insert_iff.2 ⟨hyw, huw⟩
      rcases ih with ⟨hvu, hvy⟩ | rfl | ⟨x, hux, hne, hxy⟩
      · exact Or.inl ⟨hvu, hvy.tail hstep⟩
      · exact Or.inr (Or.inr ⟨w, hyw, huw, ReflTransGen.refl⟩)
      · exact Or.inr (Or.inr ⟨x, hux, hne, hxy.tail hstep⟩)

/-- **What spreading marks.**  Spreading marks exactly the nodes that some unmarked node of the
worklist leads to through unmarked nodes. -/
lemma contains_spread (next : Fin n → List (Fin n)) (work : List (Fin n)) (marked : NodeSet n)
    (w : Fin n) :
    (spread next work marked).contains w = true ↔
      marked.contains w = true ∨
        ∃ v ∈ work, ¬ marked.contains v = true ∧ ReflTransGen (SpreadStep next marked) v w := by
  induction work, marked using spread.induct next with
  | case1 marked => simp [spread]
  | case2 marked u work hu ih =>
    rw [spread, if_pos hu, ih]
    simp only [List.mem_cons, exists_eq_or_imp, hu, not_true, false_and, false_or]
  | case3 marked u work hu ih =>
    have hmono : ∀ {a b}, ReflTransGen (SpreadStep next (marked.insert u)) a b →
        ReflTransGen (SpreadStep next marked) a b :=
      ReflTransGen.mono (fun _ _ hstep => (spreadStep_insert_iff.1 hstep).1) _ _
    have hmarked : ∀ v, (marked.insert u).contains v = true ↔ u = v ∨ marked.contains v = true := by
      intro v
      rw [NodeSet.contains_insert, Bool.or_eq_true, decide_eq_true_iff]
    rw [spread, if_neg hu, ih, hmarked]
    constructor
    · rintro ((rfl | hw) | ⟨v, hv, hvm, hvw⟩)
      · exact Or.inr ⟨u, List.mem_cons_self, hu, ReflTransGen.refl⟩
      · exact Or.inl hw
      · have hvm' : ¬ marked.contains v = true := fun h => hvm ((hmarked v).2 (Or.inr h))
        rcases List.mem_append.1 hv with hv | hv
        · exact Or.inr ⟨u, List.mem_cons_self, hu, (hmono hvw).head ⟨hv, hvm'⟩⟩
        · exact Or.inr ⟨v, List.mem_cons_of_mem u hv, hvm', hmono hvw⟩
    · rintro (hw | ⟨v, hv, hvm, hvw⟩)
      · exact Or.inl (Or.inr hw)
      · -- only the part of the walk after its last visit to `u` avoids `u`
        rcases SpreadStep.avoid_or_leave u hvw with ⟨hvu, hvw'⟩ | huw | ⟨x, hux, hne, hxw⟩
        · have hwork : v ∈ work := (List.mem_cons.1 hv).resolve_left hvu
          have hvm' : ¬ (marked.insert u).contains v = true := by
            rw [hmarked]
            exact fun h => h.elim (fun e => hvu e.symm) hvm
          exact Or.inr ⟨v, List.mem_append_right _ hwork, hvm', hvw'⟩
        · exact Or.inl (Or.inl huw)
        · have hxm : ¬ (marked.insert u).contains x = true := by
            rw [hmarked]
            exact fun h => h.elim hne hux.2
          exact Or.inr ⟨x, List.mem_append_left _ hux.1, hxm, hxw⟩

namespace Digraph

/-! ## Edges -/

/-- There is an edge from `v` to `w`. -/
def Edge (g : Digraph n) (v w : Fin n) : Prop :=
  w ∈ g.successors v

/-- Sorting nodes only changes their order. -/
lemma sortNodes_perm (nodes : List (Fin n)) : (sortNodes nodes).Perm nodes :=
  List.mergeSort_perm nodes _

/-- Sorted nodes ascend, if none of them is there twice. -/
lemma pairwise_sortNodes {nodes : List (Fin n)} (h : nodes.Nodup) :
    (sortNodes nodes).Pairwise (· < ·) := by
  have hsorted : (sortNodes nodes).Pairwise (· ≤ ·) := List.sortedLE_mergeSort.pairwise
  have hnodup : (sortNodes nodes).Nodup := (sortNodes_perm nodes).nodup_iff.2 h
  exact hsorted.imp₂ (fun _ _ hle hne => lt_of_le_of_ne hle hne) hnodup

/-- Nodes that ascend are sorted already. -/
lemma sortNodes_of_pairwise {nodes : List (Fin n)} (h : nodes.Pairwise (· < ·)) :
    sortNodes nodes = nodes :=
  List.mergeSort_of_pairwise (h.imp fun hlt => decide_eq_true hlt.le)

/-- An edge leads from `v` to `w` if these are its ends. -/
lemma target?_eq_some_iff {v w : Fin n} {edge : ℕ × ℕ} :
    target? v edge = some w ↔ edge = (v.val, w.val) := by
  obtain ⟨a, b⟩ := edge
  have hw : (∃ h : b < n, (⟨b, h⟩ : Fin n) = w) ↔ b = w.val :=
    ⟨fun ⟨_, hb⟩ => congrArg Fin.val hb, fun hb => ⟨hb ▸ w.isLt, Fin.ext hb⟩⟩
  simp only [target?, Option.ite_none_right_eq_some, Option.dite_none_right_eq_some,
    Option.some.injEq, Prod.mk.injEq, hw]

/-- The successors in the graph of a list of edges are the nodes that its edges lead to, sorted. -/
lemma successors_ofEdges (edges : List (ℕ × ℕ)) (v : Fin n) :
    (ofEdges edges : Digraph n).successors v = sortNodes (edges.filterMap (target? v)) :=
  Vector.getElem_ofFn v.isLt

/-- The graph of a list of edges has exactly the edges of the list. -/
lemma edge_ofEdges_iff {edges : List (ℕ × ℕ)} {v w : Fin n} :
    (ofEdges edges : Digraph n).Edge v w ↔ (v.val, w.val) ∈ edges := by
  rw [Edge, successors_ofEdges, (sortNodes_perm _).mem_iff, List.mem_filterMap]
  simp only [target?_eq_some_iff, exists_eq_right]

/-- The graph of a list of different edges lists the successors of a node in ascending order. -/
lemma pairwise_successors_ofEdges {edges : List (ℕ × ℕ)} (h : edges.Nodup) (v : Fin n) :
    ((ofEdges edges : Digraph n).successors v).Pairwise (· < ·) := by
  rw [successors_ofEdges]
  refine pairwise_sortNodes (h.filterMap fun edge edge' w hedge hedge' => ?_)
  rw [target?_eq_some_iff.1 hedge, target?_eq_some_iff.1 hedge']

/-- The part of a graph in a set of nodes has the edges between two nodes of the set. -/
lemma edge_induced_iff {g : Digraph n} {nodes : NodeSet n} {v w : Fin n} :
    (g.induced nodes).Edge v w ↔
      nodes.contains v = true ∧ nodes.contains w = true ∧ g.Edge v w := by
  have hsuccessors : (g.induced nodes).successors v =
      if nodes.contains v then (g.successors v).filter nodes.contains else [] :=
    Vector.getElem_ofFn v.isLt
  rw [Edge, hsuccessors]
  split
  · rename_i hv
    rw [List.mem_filter, Edge]
    tauto
  · rename_i hv
    simp [hv]

/-- Listing `v` with each node of `targets` adds `v` to the lists of these nodes. -/
lemma mem_foldl_set_cons (targets : List (Fin n)) (v : Fin n) (lists : Vector (List (Fin n)) n)
    (u w : Fin n) :
    u ∈ (targets.foldl (fun lists (w : Fin n) => lists.set w (v :: lists.get w) w.isLt)
        lists).get w ↔
      u ∈ lists.get w ∨ (u = v ∧ w ∈ targets) := by
  induction targets generalizing lists with
  | nil => simp
  | cons t targets ih =>
    rw [List.foldl_cons, ih, get_set_val, List.mem_cons]
    by_cases htw : t = w
    · subst htw
      rw [if_pos rfl, List.mem_cons]
      tauto
    · rw [if_neg htw]
      have hwt : w ≠ t := fun e => htw e.symm
      tauto

/-- Turning the edges round turns each edge round. -/
lemma edge_reverse_iff {g : Digraph n} {v w : Fin n} : g.reverse.Edge v w ↔ g.Edge w v := by
  have hfold : ∀ (nodes : List (Fin n)) (lists : Vector (List (Fin n)) n),
      w ∈ (nodes.foldl (fun lists u => (g.successors u).foldl
          (fun lists (x : Fin n) => lists.set x (u :: lists.get x) x.isLt) lists) lists).get v ↔
        w ∈ lists.get v ∨ (w ∈ nodes ∧ v ∈ g.successors w) := by
    intro nodes
    induction nodes with
    | nil => simp
    | cons u nodes ih =>
      intro lists
      rw [List.foldl_cons, ih, mem_foldl_set_cons, List.mem_cons]
      constructor
      · rintro ((h | ⟨rfl, h⟩) | h)
        · exact Or.inl h
        · exact Or.inr ⟨Or.inl rfl, h⟩
        · exact Or.inr ⟨Or.inr h.1, h.2⟩
      · rintro (h | ⟨rfl | h, hv⟩)
        · exact Or.inl (Or.inl h)
        · exact Or.inl (Or.inr ⟨rfl, hv⟩)
        · exact Or.inr ⟨h, hv⟩
  have hnone : (Vector.replicate n ([] : List (Fin n))).get v = [] := Vector.getElem_replicate v.isLt
  show w ∈ g.reverse.next.get v ↔ v ∈ g.successors w
  rw [reverse, hfold, hnone]
  simp

/-! ## Reachable sets -/

/-- `v` leads to `w` along edges of the graph. -/
def Leads (g : Digraph n) : Fin n → Fin n → Prop :=
  ReflTransGen g.Edge

/-- The computed reachable set of a node holds exactly the nodes that it leads to. -/
lemma contains_reachable_iff {g : Digraph n} {v w : Fin n} :
    (g.reachable v).contains w = true ↔ g.Leads v w := by
  have hstep : SpreadStep g.successors (.empty : NodeSet n) = g.Edge := by
    funext a b
    simp [SpreadStep, Edge]
  rw [reachable, contains_spread, hstep]
  simp [Leads]

/-- In the graph with its edges turned round, leading to a node is being reached from it. -/
lemma leads_reverse_iff {g : Digraph n} {v w : Fin n} : g.reverse.Leads v w ↔ g.Leads w v := by
  have hswap : g.reverse.Edge = Function.swap g.Edge := by
    funext a b
    exact propext edge_reverse_iff
  rw [Leads, hswap, reflTransGen_swap, Leads]

/-- Each of two nodes leads to the other. -/
def Linked (g : Digraph n) (v w : Fin n) : Prop :=
  g.Leads v w ∧ g.Leads w v

/-- A node is linked to itself. -/
lemma Linked.refl {g : Digraph n} (v : Fin n) : g.Linked v v :=
  ⟨ReflTransGen.refl, ReflTransGen.refl⟩

/-- Being linked does not depend on the order of the two nodes. -/
lemma Linked.symm {g : Digraph n} {v w : Fin n} (h : g.Linked v w) : g.Linked w v :=
  ⟨h.2, h.1⟩

/-- Two nodes linked to a third one are linked. -/
lemma Linked.trans {g : Digraph n} {u v w : Fin n} (h : g.Linked u v) (h' : g.Linked v w) :
    g.Linked u w :=
  ⟨ReflTransGen.trans h.1 h'.1, ReflTransGen.trans h'.2 h.2⟩

end Digraph

end CppDeps
