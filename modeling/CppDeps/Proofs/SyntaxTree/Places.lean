import CppDeps.SyntaxTree.Basic
import Mathlib.Logic.Relation
import Mathlib.Tactic

/-!
# Going up and down in a tree

The places of a tree are its root and all that is reached from it by going to a child time and again
(`Tree.mem_places_iff`).  So each ancestor of a place stands at a place of the tree itself, and what
holds between every node and its children, and carries over, holds between every node and its ancestors.

Changing what stands at the nodes of a tree changes what stands at its places in the same way
(`Tree.places_map`).  So what the shape of a syntax tree guarantees can be used of the tree with the
texts of any file.
-/

namespace CppDeps

universe u v

variable {α : Type u} {β : Type v}

namespace Place

/-- A place and one right below it. -/
def HasChild (place child : Place α) : Prop :=
  child ∈ place.children

/-- Around a place right below another stand that one and what is around it. -/
lemma ancestors_of_mem_children {place child : Place α} (h : child ∈ place.children) :
    child.ancestors = place.tree :: place.ancestors := by
  obtain ⟨tree, -, rfl⟩ := List.mem_map.1 h
  rfl

/-- At the places right below stand the trees right below. -/
lemma map_tree_children (place : Place α) : place.children.map tree = place.tree.children := by
  rw [children, List.map_map]
  exact List.map_id _

/-- The place at which something else stands at each node. -/
def map (f : α → β) (place : Place α) : Place β where
  tree := place.tree.map f
  ancestors := place.ancestors.map (Tree.map f)

end Place

namespace Tree

variable {tree : Tree α} {place child : Place α}

/-! ## Going down -/

/-- The places of several trees are those of each of them. -/
lemma placesOfAll_eq_flatMap (ancestors : List (Tree α)) (trees : List (Tree α)) :
    placesOfAll ancestors trees = trees.flatMap (placesBelow ancestors) := by
  induction trees with
  | nil => rfl
  | cons tree trees ih => rw [placesOfAll, ih, List.flatMap_cons]

/-- The places of a tree are its root and the places below the children of the root. -/
lemma placesBelow_eq (place : Place α) :
    placesBelow place.ancestors place.tree =
      place :: place.children.flatMap fun child => placesBelow child.ancestors child.tree := by
  obtain ⟨⟨datum, children⟩, ancestors⟩ := place
  rw [placesBelow, placesOfAll_eq_flatMap, Place.children, List.flatMap_map]
  rfl

/-- A child is smaller than the tree. -/
lemma sizeOf_lt_of_mem_children {tree child : Tree α} (h : child ∈ tree.children) :
    sizeOf child < sizeOf tree := by
  obtain ⟨datum, children⟩ := tree
  have hmem : sizeOf child < sizeOf children := List.sizeOf_lt_of_mem h
  rw [node.sizeOf_spec]
  omega

/-- A place of a tree is reached from the root by going down. -/
lemma reaches_of_mem_placesBelow (tree : Tree α) (ancestors : List (Tree α))
    (h : place ∈ placesBelow ancestors tree) :
    Relation.ReflTransGen Place.HasChild ⟨tree, ancestors⟩ place := by
  rw [placesBelow_eq ⟨tree, ancestors⟩, List.mem_cons] at h
  rcases h with rfl | h
  · exact Relation.ReflTransGen.refl
  · obtain ⟨child, hchild, hplace⟩ := List.mem_flatMap.1 h
    obtain ⟨subtree, hsubtree, rfl⟩ := List.mem_map.1 hchild
    exact Relation.ReflTransGen.head hchild (reaches_of_mem_placesBelow subtree _ hplace)
termination_by sizeOf tree
decreasing_by
  exact sizeOf_lt_of_mem_children hsubtree

/-- **The places of a tree** are those reached from the root by going to a child time and again. -/
theorem mem_places_iff :
    place ∈ tree.places ↔ Relation.ReflTransGen Place.HasChild ⟨tree, []⟩ place := by
  refine ⟨reaches_of_mem_placesBelow tree [], fun h => ?_⟩
  have hbelow : ∀ top : Place α, Relation.ReflTransGen Place.HasChild top place →
      place ∈ placesBelow top.ancestors top.tree := by
    intro top h
    induction h using Relation.ReflTransGen.head_induction_on with
    | refl =>
      rw [placesBelow_eq]
      exact List.mem_cons_self
    | head hchild _ ih =>
      rw [placesBelow_eq]
      exact List.mem_cons_of_mem _ (List.mem_flatMap.2 ⟨_, hchild, ih⟩)
  exact hbelow ⟨tree, []⟩ h

/-- What is right below a place of a tree is a place of the tree. -/
lemma mem_places_of_mem_children (h : place ∈ tree.places) (hchild : child ∈ place.children) :
    child ∈ tree.places :=
  mem_places_iff.2 ((mem_places_iff.1 h).tail hchild)

/-! ## Going up -/

/-- The nearest tree around a place of a tree stands at a place of the tree, right above it. -/
lemma of_ancestors_eq_cons (h : place ∈ tree.places) {parent : Tree α} {above : List (Tree α)}
    (hancestors : place.ancestors = parent :: above) :
    (⟨parent, above⟩ : Place α) ∈ tree.places ∧ place ∈ (⟨parent, above⟩ : Place α).children := by
  rcases Relation.ReflTransGen.cases_tail (mem_places_iff.1 h) with rfl | ⟨top, htop, hchild⟩
  · exact absurd hancestors (List.cons_ne_nil _ _).symm
  · have heq : parent :: above = top.tree :: top.ancestors :=
      hancestors.symm.trans (Place.ancestors_of_mem_children hchild)
    obtain ⟨rfl, rfl⟩ := List.cons.inj heq
    exact ⟨mem_places_iff.2 htop, hchild⟩

/-- Each ancestor of a place stands at a place of the tree, and is related to the place if each node is
related to its children. -/
lemma exists_place_of_mem_ancestors {R : α → α → Prop} (htrans : ∀ {a b c}, R a b → R b c → R a c)
    (hR : ∀ place ∈ tree.places, ∀ child ∈ place.children, R place.datum child.datum)
    (h : place ∈ tree.places) {ancestor : Tree α} (hancestor : ancestor ∈ place.ancestors) :
    ∃ above, (⟨ancestor, above⟩ : Place α) ∈ tree.places ∧ R ancestor.datum place.datum := by
  induction hancestors : place.ancestors generalizing place with
  | nil =>
    rw [hancestors] at hancestor
    exact absurd hancestor List.not_mem_nil
  | cons parent above ih =>
    obtain ⟨hparent, hchild⟩ := of_ancestors_eq_cons h hancestors
    have hstep : R parent.datum place.datum := hR _ hparent place hchild
    rw [hancestors, List.mem_cons] at hancestor
    rcases hancestor with rfl | hancestor
    · exact ⟨above, hparent, hstep⟩
    · obtain ⟨above', habove', hrelated⟩ := ih hparent hancestor rfl
      exact ⟨above', habove', htrans hrelated hstep⟩

/-! ## Changing what stands at the nodes -/

/-- Several trees are changed one by one. -/
lemma mapAll_eq_map (f : α → β) (trees : List (Tree α)) : mapAll f trees = trees.map (map f) := by
  induction trees with
  | nil => rfl
  | cons tree trees ih => rw [mapAll, ih, List.map_cons]

/-- The children of a changed tree are the changed children. -/
lemma children_map (f : α → β) (tree : Tree α) :
    (tree.map f).children = tree.children.map (map f) := by
  obtain ⟨datum, children⟩ := tree
  exact mapAll_eq_map f children

/-- Two changes are one. -/
lemma map_map {γ : Type*} (f : α → β) (g : β → γ) (tree : Tree α) :
    (tree.map f).map g = tree.map (g ∘ f) := by
  obtain ⟨datum, children⟩ := tree
  rw [map, map, map, mapAll_eq_map, mapAll_eq_map, mapAll_eq_map, List.map_map]
  congr 1
  refine List.map_congr_left fun child hchild => ?_
  have hsmaller : sizeOf child < sizeOf (node datum children) := sizeOf_lt_of_mem_children hchild
  exact map_map f g child
termination_by sizeOf tree

/-- What stands at the root changes. -/
lemma datum_map (f : α → β) (tree : Tree α) : (tree.map f).datum = f tree.datum := by
  obtain ⟨datum, children⟩ := tree
  rfl

end Tree

namespace Place

/-- What stands at a place changes. -/
lemma datum_map (f : α → β) (place : Place α) : (place.map f).datum = f place.datum :=
  Tree.datum_map f place.tree

/-- The places right below a changed place are the changed ones. -/
lemma children_map (f : α → β) (place : Place α) :
    (place.map f).children = place.children.map (map f) := by
  rw [children, children, List.map_map]
  show ((place.tree.map f).children.map _) = _
  rw [Tree.children_map, List.map_map]
  rfl

end Place

namespace Tree

/-- The places below a changed place are the changed ones. -/
lemma placesBelow_map (f : α → β) (place : Place α) :
    placesBelow (place.map f).ancestors (place.map f).tree =
      (placesBelow place.ancestors place.tree).map (Place.map f) := by
  rw [placesBelow_eq, placesBelow_eq, List.map_cons, Place.children_map, List.flatMap_map,
    List.map_flatMap]
  congr 1
  refine List.flatMap_congr fun child hchild => ?_
  have hsmaller : sizeOf child.tree < sizeOf place.tree := by
    apply sizeOf_lt_of_mem_children
    rw [← Place.map_tree_children]
    exact List.mem_map_of_mem hchild
  exact placesBelow_map f child
termination_by sizeOf place.tree

/-- The places of a changed tree are the changed places. -/
lemma places_map (f : α → β) (tree : Tree α) :
    (tree.map f).places = tree.places.map (Place.map f) :=
  placesBelow_map f ⟨tree, []⟩

end Tree

namespace SyntaxTree

variable {tree : SyntaxTree}

/-- What holds of the shape of every node still does when the texts are read. -/
lemma forall_places_read {P : Shape → Prop} (h : ∀ place ∈ tree.places, P place.datum)
    (source : ByteArray) : ∀ place ∈ (tree.read source).places, P place.datum.toShape := by
  intro place hplace
  obtain ⟨place', hplace', rfl⟩ := List.mem_map.1 (Tree.places_map _ tree ▸ hplace)
  rw [Place.datum_map]
  exact h place' hplace'

/-- What holds of the shapes of every node and its children still does when the texts are read. -/
lemma forall_children_read {R : Shape → Shape → Prop}
    (h : ∀ place ∈ tree.places, ∀ child ∈ place.children, R place.datum child.datum)
    (source : ByteArray) :
    ∀ place ∈ (tree.read source).places, ∀ child ∈ place.children,
      R place.datum.toShape child.datum.toShape := by
  intro place hplace child hchild
  obtain ⟨place', hplace', rfl⟩ := List.mem_map.1 (Tree.places_map _ tree ▸ hplace)
  rw [Place.children_map] at hchild
  obtain ⟨child', hchild', rfl⟩ := List.mem_map.1 hchild
  rw [Place.datum_map, Place.datum_map]
  exact h place' hplace' child' hchild'

end SyntaxTree

end CppDeps
