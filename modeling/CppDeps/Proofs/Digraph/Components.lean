import CppDeps.Proofs.Digraph.Reachability

/-!
# The components of a graph

`Digraph.classes` splits a list of nodes into classes: the first node collects the later nodes that
are linked to it, and the rest is split in the same way.  This file shows that the result is the
partition into strongly connected components: no node is lost or used twice (`flatten_classes_perm`),
nodes of a class are linked (`linked_of_mem_classes`), and linked nodes share a class
(`mem_class_of_linked`).

The components of two or more nodes are then put in order.  The classes of ascending nodes are in order
already, so that nothing is moved there (`components_eq_largeClasses`).  The nodes of a component are
linked by edges inside it (`stronglyConnected_of_mem_components`).
-/

namespace CppDeps

open Relation

namespace Digraph

variable {n : ℕ} {g : Digraph n}

/-! ## Splitting off one class -/

/-- The class split off consists of the nodes that are linked to the first one. -/
lemma mem_splitClass_fst {v w : Fin n} {nodes : List (Fin n)} :
    w ∈ (splitClass g g.reverse v nodes).1 ↔ w ∈ nodes ∧ g.Linked v w := by
  simp only [splitClass, List.partition_eq_filter_filter, List.mem_filter, Bool.and_eq_true,
    contains_reachable_iff, leads_reverse_iff, Linked]

/-- What remains are the nodes that are not linked to the first one. -/
lemma mem_splitClass_snd {v w : Fin n} {nodes : List (Fin n)} :
    w ∈ (splitClass g g.reverse v nodes).2 ↔ w ∈ nodes ∧ ¬ g.Linked v w := by
  simp only [splitClass, List.partition_eq_filter_filter, List.mem_filter, Function.comp_apply,
    Bool.not_eq_true', ← Bool.not_eq_true, Bool.and_eq_true, contains_reachable_iff,
    leads_reverse_iff, Linked]

/-- The class split off keeps the order of the nodes. -/
lemma splitClass_fst_sublist (v : Fin n) (nodes : List (Fin n)) :
    (splitClass g g.reverse v nodes).1.Sublist nodes := by
  simp only [splitClass, List.partition_eq_filter_filter]
  exact List.filter_sublist

/-- What remains keeps the order of the nodes. -/
lemma splitClass_snd_sublist (v : Fin n) (nodes : List (Fin n)) :
    (splitClass g g.reverse v nodes).2.Sublist nodes := by
  simp only [splitClass, List.partition_eq_filter_filter]
  exact List.filter_sublist

/-- Splitting loses no node and doubles none. -/
lemma splitClass_perm (v : Fin n) (nodes : List (Fin n)) :
    ((splitClass g g.reverse v nodes).1 ++ (splitClass g g.reverse v nodes).2).Perm nodes := by
  simp only [splitClass, List.partition_eq_filter_filter]
  exact List.filter_append_perm _ _

/-! ## All classes -/

/-- A class either is the first one, of the first node and the nodes linked to it, or is a class of
what remains. -/
lemma mem_classes_cons {v : Fin n} {nodes C : List (Fin n)} :
    C ∈ classes g g.reverse (v :: nodes) ↔
      C = v :: (splitClass g g.reverse v nodes).1 ∨
        C ∈ classes g g.reverse (splitClass g g.reverse v nodes).2 := by
  rw [classes, List.mem_cons]

/-- Two nodes of a class are linked. -/
lemma linked_of_mem_classes {nodes C : List (Fin n)} (hC : C ∈ classes g g.reverse nodes)
    {v w : Fin n} (hv : v ∈ C) (hw : w ∈ C) : g.Linked v w := by
  induction nodes using classes.induct g g.reverse with
  | case1 => simp [classes] at hC
  | case2 u nodes split ih =>
    rcases mem_classes_cons.1 hC with rfl | hC
    · have hlink : ∀ {x}, x ∈ u :: (splitClass g g.reverse u nodes).1 → g.Linked u x := by
        intro x hx
        rcases List.mem_cons.1 hx with rfl | hx
        · exact Linked.refl x
        · exact (mem_splitClass_fst.1 hx).2
      exact (hlink hv).symm.trans (hlink hw)
    · exact ih hC

/-- A class keeps the order of the nodes. -/
lemma sublist_of_mem_classes {nodes C : List (Fin n)} (hC : C ∈ classes g g.reverse nodes) :
    C.Sublist nodes := by
  induction nodes using classes.induct g g.reverse with
  | case1 => simp [classes] at hC
  | case2 u nodes split ih =>
    rcases mem_classes_cons.1 hC with rfl | hC
    · exact (splitClass_fst_sublist u nodes).cons_cons u
    · exact ((ih hC).trans (splitClass_snd_sublist u nodes)).cons u

/-- A class has a node. -/
lemma ne_nil_of_mem_classes {nodes C : List (Fin n)} (hC : C ∈ classes g g.reverse nodes) :
    C ≠ [] := by
  induction nodes using classes.induct g g.reverse with
  | case1 => simp [classes] at hC
  | case2 u nodes split ih =>
    rcases mem_classes_cons.1 hC with rfl | hC
    · exact List.cons_ne_nil u _
    · exact ih hC

/-- **The classes divide up the nodes**: together they use each node as often as it is listed. -/
lemma flatten_classes_perm (nodes : List (Fin n)) :
    (classes g g.reverse nodes).flatten.Perm nodes := by
  induction nodes using classes.induct g g.reverse with
  | case1 => simp [classes]
  | case2 u nodes split ih =>
    rw [classes, List.flatten_cons, List.cons_append]
    exact ((ih.append_left _).trans (splitClass_perm u nodes)).cons u

/-- A class holds all nodes that are linked to one of its nodes. -/
lemma mem_class_of_linked {nodes C : List (Fin n)} (hC : C ∈ classes g g.reverse nodes)
    {v w : Fin n} (hv : v ∈ C) (hw : w ∈ nodes) (hlink : g.Linked v w) : w ∈ C := by
  induction nodes using classes.induct g g.reverse with
  | case1 => simp at hw
  | case2 u nodes split ih =>
    rcases mem_classes_cons.1 hC with rfl | hC
    · have huw : g.Linked u w := by
        rcases List.mem_cons.1 hv with rfl | hv
        · exact hlink
        · exact (mem_splitClass_fst.1 hv).2.trans hlink
      rcases List.mem_cons.1 hw with rfl | hw
      · exact List.mem_cons_self
      · exact List.mem_cons_of_mem u (mem_splitClass_fst.2 ⟨hw, huw⟩)
    · have huv : ¬ g.Linked u v :=
        (mem_splitClass_snd.1 ((sublist_of_mem_classes hC).subset hv)).2
      have huw : ¬ g.Linked u w := fun h => huv (h.trans hlink.symm)
      have hwu : w ≠ u := fun e => huw (e ▸ Linked.refl _)
      exact ih hC (mem_splitClass_snd.2 ⟨(List.mem_cons.1 hw).resolve_left hwu, huw⟩)

/-- The classes of ascending nodes ascend in their first nodes. -/
lemma pairwise_startsBefore_classes {nodes : List (Fin n)} (h : nodes.Pairwise (· < ·)) :
    (classes g g.reverse nodes).Pairwise fun C D => startsBefore C D = true := by
  induction nodes using classes.induct g g.reverse with
  | case1 => simp [classes]
  | case2 u nodes split ih =>
    obtain ⟨hfirst, hrest⟩ := List.pairwise_cons.1 h
    rw [classes, List.pairwise_cons]
    refine ⟨fun D hD => ?_, ih (hrest.sublist (splitClass_snd_sublist u nodes))⟩
    obtain ⟨w, D, rfl⟩ := List.exists_cons_of_ne_nil (ne_nil_of_mem_classes hD)
    have hw : w ∈ nodes := (splitClass_snd_sublist u nodes).subset
      ((sublist_of_mem_classes hD).subset List.mem_cons_self)
    exact decide_eq_true (hfirst w hw).le

/-! ## Components among some nodes -/

/-- The part of a graph in a list of nodes. -/
def part (g : Digraph n) (nodes : List (Fin n)) : Digraph n :=
  g.induced (.ofList nodes)

/-- The part of a graph in a list of nodes has the edges between two nodes of the list. -/
lemma edge_part_iff {nodes : List (Fin n)} {v w : Fin n} :
    (g.part nodes).Edge v w ↔ v ∈ nodes ∧ w ∈ nodes ∧ g.Edge v w := by
  rw [part, edge_induced_iff, NodeSet.contains_ofList, NodeSet.contains_ofList]

/-- The classes of two or more nodes in the part of a graph in a list of nodes. -/
def largeClasses (g : Digraph n) (nodes : List (Fin n)) : List (List (Fin n)) :=
  (classes (g.part nodes) (g.part nodes).reverse nodes).filter fun C => 1 < C.length

/-- The components are the classes of two or more nodes, put in order. -/
lemma components_perm (g : Digraph n) (nodes : List (Fin n)) :
    (g.components nodes).Perm ((g.largeClasses nodes).map sortNodes) :=
  List.mergeSort_perm _ _

/-- **The components among ascending nodes** are the classes of two or more nodes as they stand. -/
lemma components_eq_largeClasses {nodes : List (Fin n)} (h : nodes.Pairwise (· < ·)) :
    g.components nodes = g.largeClasses nodes := by
  have hsorted : (g.largeClasses nodes).map sortNodes = g.largeClasses nodes := by
    refine (List.map_congr_left fun C hC => sortNodes_of_pairwise ?_).trans (List.map_id _)
    exact h.sublist (sublist_of_mem_classes (List.mem_of_mem_filter hC))
  have hordered := (pairwise_startsBefore_classes (g := g.part nodes) h).filter fun C =>
    decide (1 < C.length)
  show ((g.largeClasses nodes).map sortNodes).mergeSort startsBefore = _
  rw [hsorted]
  exact List.mergeSort_of_pairwise hordered

/-- A component has the nodes of a class, sorted. -/
lemma exists_class_of_mem_components {nodes C : List (Fin n)} (hC : C ∈ g.components nodes) :
    ∃ K ∈ classes (g.part nodes) (g.part nodes).reverse nodes, 2 ≤ K.length ∧ C.Perm K := by
  obtain ⟨K, hK, rfl⟩ := List.mem_map.1 ((components_perm g nodes).mem_iff.1 hC)
  obtain ⟨hclass, hlarge⟩ := List.mem_filter.1 hK
  exact ⟨K, hclass, of_decide_eq_true hlarge, sortNodes_perm K⟩

/-- A component has two or more nodes. -/
lemma two_le_length_of_mem_components {nodes C : List (Fin n)} (hC : C ∈ g.components nodes) :
    2 ≤ C.length := by
  obtain ⟨K, -, hlarge, hperm⟩ := exists_class_of_mem_components hC
  rw [hperm.length_eq]
  exact hlarge

/-- Two nodes of a component are linked. -/
lemma linked_of_mem_components {nodes C : List (Fin n)} (hC : C ∈ g.components nodes) {v w : Fin n}
    (hv : v ∈ C) (hw : w ∈ C) : (g.part nodes).Linked v w := by
  obtain ⟨K, hK, -, hperm⟩ := exists_class_of_mem_components hC
  exact linked_of_mem_classes hK (hperm.mem_iff.1 hv) (hperm.mem_iff.1 hw)

/-- A component holds all nodes that are linked to one of its nodes. -/
lemma mem_component_of_linked {nodes C : List (Fin n)} (hC : C ∈ g.components nodes) {v w : Fin n}
    (hv : v ∈ C) (hw : w ∈ nodes) (hlink : (g.part nodes).Linked v w) : w ∈ C := by
  obtain ⟨K, hK, -, hperm⟩ := exists_class_of_mem_components hC
  exact hperm.mem_iff.2 (mem_class_of_linked hK (hperm.mem_iff.1 hv) hw hlink)

/-- Two different nodes that are linked share a component. -/
lemma exists_mem_components {nodes : List (Fin n)} {v w : Fin n} (hv : v ∈ nodes) (hw : w ∈ nodes)
    (hne : v ≠ w) (hlink : (g.part nodes).Linked v w) :
    ∃ C ∈ g.components nodes, v ∈ C ∧ w ∈ C := by
  obtain ⟨K, hK, hvK⟩ := List.mem_flatten.1
    ((flatten_classes_perm (g := g.part nodes) nodes).mem_iff.2 hv)
  have hwK : w ∈ K := mem_class_of_linked hK hvK hw hlink
  have hlarge : 1 < K.length := by
    have hnodup : [v, w].Nodup := by simpa using hne
    have hpair : [v, w].Subperm K := hnodup.subperm (by simp [hvK, hwK])
    exact hpair.length_le
  refine ⟨sortNodes K, ?_, (sortNodes_perm K).mem_iff.2 hvK, (sortNodes_perm K).mem_iff.2 hwK⟩
  rw [(components_perm g nodes).mem_iff]
  exact List.mem_map_of_mem (List.mem_filter.2 ⟨hK, decide_eq_true hlarge⟩)

/-- The components together use no node more often than the list of nodes. -/
lemma flatten_components_subperm (g : Digraph n) (nodes : List (Fin n)) :
    List.Subperm (g.components nodes).flatten nodes := by
  have hsorted : ∀ parts : List (List (Fin n)), (parts.map sortNodes).flatten.Perm parts.flatten := by
    intro parts
    induction parts with
    | nil => exact List.Perm.refl _
    | cons C parts ih =>
      rw [List.map_cons, List.flatten_cons, List.flatten_cons]
      exact (sortNodes_perm C).append ih
  have hlarge : (g.largeClasses nodes).flatten.Sublist
      (classes (g.part nodes) (g.part nodes).reverse nodes).flatten :=
    List.Sublist.flatten List.filter_sublist
  have hperm : (g.components nodes).flatten.Perm (g.largeClasses nodes).flatten :=
    (components_perm g nodes).flatten.trans (hsorted _)
  exact (hperm.subperm.trans hlarge.subperm).trans (flatten_classes_perm nodes).subperm

/-- Some nodes are strongly connected if each of them leads to each other one along edges that do not
leave them. -/
def StronglyConnected (g : Digraph n) (nodes : List (Fin n)) : Prop :=
  ∀ v ∈ nodes, ∀ w ∈ nodes, (g.part nodes).Leads v w

/-- A walk from a node of a component to another one stays inside the component, since the nodes that it
passes are linked to both. -/
lemma leads_part_of_mem_components {nodes C : List (Fin n)} (hC : C ∈ g.components nodes)
    {v w : Fin n} (hv : v ∈ C) (hw : w ∈ C) (hlead : (g.part nodes).Leads v w) :
    (g.part C).Leads v w := by
  induction hlead using ReflTransGen.head_induction_on with
  | refl => exact ReflTransGen.refl
  | @head v u hvu huw ih =>
    obtain ⟨-, hunodes, hedge⟩ := edge_part_iff.1 hvu
    have hwv : (g.part nodes).Leads w v := (linked_of_mem_components hC hw hv).1
    have hlink : (g.part nodes).Linked v u :=
      ⟨ReflTransGen.single hvu, ReflTransGen.trans huw hwv⟩
    have hu : u ∈ C := mem_component_of_linked hC hv hunodes hlink
    exact ReflTransGen.head (edge_part_iff.2 ⟨hv, hu, hedge⟩) (ih hu)

/-- The components are strongly connected. -/
lemma stronglyConnected_of_mem_components {nodes C : List (Fin n)} (hC : C ∈ g.components nodes) :
    g.StronglyConnected C := by
  intro v hv w hw
  have hlink : (g.part nodes).Linked v w := linked_of_mem_components hC hv hw
  exact leads_part_of_mem_components hC hv hw hlink.1

/-- The components use at most as many nodes as there are. -/
lemma sum_length_components_le (g : Digraph n) (nodes : List (Fin n)) :
    ((g.components nodes).map List.length).sum ≤ nodes.length := by
  rw [← List.length_flatten]
  exact (flatten_components_subperm g nodes).length_le

end Digraph

end CppDeps
