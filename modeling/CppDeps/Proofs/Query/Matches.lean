import CppDeps.Proofs.SyntaxTree.Places
import CppDeps.Query

/-!
# From the name of a match up to its outer node

A pattern goes down from an outer node to a name.  Going up from the name again, the first node of the
kind of the outer node is the outer node itself: for most patterns because the name is right below it,
and for functions because none of the nodes between the two is of that kind
(`nearestAncestor?_of_mem_matchesAt`).  For the node in `declarator:` this has to be asked of the tree
(`SyntaxTree.NoNestedDefinition`), since the second pattern for functions takes any node there.
-/

namespace CppDeps

/-- No definition of a function stands in the role of the declarator of another. -/
def SyntaxTree.NoNestedDefinition (tree : SyntaxTree) : Prop :=
  ∀ place ∈ tree.places, ∀ child ∈ place.children, place.datum.kind = "function_definition" →
    child.datum.field = some "declarator" → child.datum.kind ≠ "function_definition"

/-- This is so whatever the texts are. -/
lemma SyntaxTree.NoNestedDefinition.read {tree : SyntaxTree} (h : tree.NoNestedDefinition)
    (source : ByteArray) : ∀ place ∈ (tree.read source).places, ∀ child ∈ place.children,
      place.kind = "function_definition" → child.datum.field = some "declarator" →
        child.kind ≠ "function_definition" :=
  SyntaxTree.forall_children_read (R := fun shape child => shape.kind = "function_definition" →
    child.field = some "declarator" → child.kind ≠ "function_definition") h source

namespace Place

variable {place child : Place Node} {field kind : String} {kinds : List String}

/-! ## Steps of a pattern -/

/-- A node is of a kind that a pattern asks for if it is a named one of that kind. -/
lemma isA_iff : place.isA kind = true ↔ place.datum.isNamed = true ∧ place.kind = kind := by
  rw [isA, Bool.and_eq_true, beq_iff_eq]

/-- The children in a role are the named ones that play it. -/
lemma mem_inField_iff :
    child ∈ place.inField field ↔
      child ∈ place.children ∧ child.datum.isNamed = true ∧ child.datum.field = some field := by
  rw [inField, List.mem_filter, Bool.and_eq_true, beq_iff_eq]

/-- The children in a role may be restricted to some kinds. -/
lemma mem_inFieldOf_iff :
    child ∈ place.inFieldOf field kinds ↔ child ∈ place.inField field ∧ child.kind ∈ kinds := by
  rw [inFieldOf, List.mem_filter, List.contains_iff_mem]

/-- The search upwards from a place goes on from the place right above unless that is of the kind. -/
lemma nearestAncestor?_of_mem_children (h : child ∈ place.children) (kind : String) :
    child.nearestAncestor? kind =
      if place.kind = kind then some place else place.nearestAncestor? kind := by
  rw [nearestAncestor?, ancestors_of_mem_children h, nearest?]
  rfl

end Place

namespace Query

variable {category : Category} {tree : Tree Node} {place child declarator name : Place Node}
  {found : Match}

/-! ## Matches of each pattern -/

/-- The matches of a category are those at the places of the tree. -/
lemma mem_allMatches_iff :
    found ∈ allMatches category tree ↔ ∃ place ∈ tree.places, found ∈ matchesAt category place :=
  List.mem_flatMap

/-- A match of a simple pattern has its name among those below its outer node. -/
lemma mem_matchesOf_iff {kind : String} {names : Place Node → List (Place Node)} :
    found ∈ matchesOf kind names place ↔
      place.isA kind = true ∧ ∃ name ∈ names place, found = ⟨0, place, name⟩ := by
  unfold matchesOf
  split
  · rename_i hkind
    rw [List.mem_map, and_iff_right hkind]
    exact exists_congr fun name => and_congr_right fun _ => eq_comm
  · rename_i hkind
    exact iff_of_false List.not_mem_nil fun h => hkind h.1

/-- A match of a namespace has its name in the role of one. -/
lemma matchesAt_namespaces :
    matchesAt .namespaces = matchesOf "namespace_definition" fun place => place.inField "name" :=
  rfl

/-- A declared name is right below the declarator, or right below a qualified name there. -/
lemma of_mem_declaredNames (h : name ∈ declaredNames declarator) :
    name ∈ declarator.children ∨
      ∃ qualified ∈ declarator.children, qualified.kind = "qualified_identifier" ∧
        name ∈ qualified.children := by
  obtain ⟨child, hchild, hname⟩ := List.mem_flatMap.1 h
  have hbelow : child ∈ declarator.children := (Place.mem_inField_iff.1 hchild).1
  split at hname
  · rw [List.mem_singleton.1 hname]
    exact Or.inl hbelow
  · split at hname
    · rename_i hkind
      have hname' := (Place.mem_inFieldOf_iff.1 hname).1
      exact Or.inr ⟨child, hbelow, hkind, (Place.mem_inField_iff.1 hname').1⟩
    · exact absurd hname List.not_mem_nil

/-- A function declarator of a definition is right below it, or right below its declarator. -/
lemma of_mem_functionDeclarators {pattern : Nat} {definition : Place Node}
    (h : (pattern, declarator) ∈ functionDeclarators definition) :
    declarator.kind = "function_declarator" ∧ ∃ child ∈ definition.inField "declarator",
      declarator = child ∨ declarator ∈ child.children := by
  obtain ⟨child, hchild, hdeclarator⟩ := List.mem_flatMap.1 h
  rcases List.mem_append.1 hdeclarator with hself | hbelow
  · split at hself
    · rename_i hkind
      obtain ⟨-, rfl⟩ := Prod.mk.inj (List.mem_singleton.1 hself)
      exact ⟨hkind, declarator, hchild, Or.inl rfl⟩
    · exact absurd hself List.not_mem_nil
  · obtain ⟨inner, hinner, heq⟩ := List.mem_map.1 hbelow
    obtain ⟨-, rfl⟩ := Prod.mk.inj heq
    obtain ⟨hinside, hkind⟩ := List.mem_filter.1 hinner
    exact ⟨(Place.isA_iff.1 hkind).2, child, hchild, Or.inr hinside⟩

end Query

/-- The function declarator in which a match of a function has its name. -/
def Match.IsDeclarator (found : Match) (declarator : Place Node) : Prop :=
  (found.pattern, declarator) ∈ Query.functionDeclarators found.outer ∧
    found.name ∈ Query.declaredNames declarator

namespace Query

variable {category : Category} {tree : Tree Node} {place child declarator name : Place Node}
  {found : Match}

/-- A match of a function has its name in a function declarator of its outer node. -/
lemma mem_functionMatches_iff :
    found ∈ functionMatches place ↔
      place.isA "function_definition" = true ∧ found.outer = place ∧
        ∃ declarator, found.IsDeclarator declarator := by
  unfold functionMatches Match.IsDeclarator
  split
  · rename_i hkind
    rw [and_iff_right hkind, List.mem_flatMap]
    constructor
    · rintro ⟨⟨pattern, declarator⟩, hdeclarator, hfound⟩
      obtain ⟨name, hname, rfl⟩ := List.mem_map.1 hfound
      exact ⟨rfl, declarator, hdeclarator, hname⟩
    · rintro ⟨rfl, declarator, hdeclarator, hname⟩
      exact ⟨(found.pattern, declarator), hdeclarator, List.mem_map.2 ⟨found.name, hname, rfl⟩⟩
  · rename_i hkind
    exact iff_of_false List.not_mem_nil fun h => hkind h.1

/-- The outer node of a match stands at the place where the match is found. -/
lemma outer_of_mem_matchesAt (h : found ∈ matchesAt category place) : found.outer = place := by
  cases category with
  | functions => exact (mem_functionMatches_iff.1 h).2.1
  | namespaces =>
    rw [matchesAt_namespaces] at h
    obtain ⟨-, name, -, rfl⟩ := mem_matchesOf_iff.1 h
    rfl
  | includes | classes | structs | callExpressions =>
    obtain ⟨-, name, -, rfl⟩ := mem_matchesOf_iff.1 h
    rfl

/-- The outer node of a match stands at a place of the tree. -/
lemma outer_mem_places (h : found ∈ allMatches category tree) : found.outer ∈ tree.places := by
  obtain ⟨place, hplace, hfound⟩ := mem_allMatches_iff.1 h
  rw [outer_of_mem_matchesAt hfound]
  exact hplace

/-! ## Going up again -/

/-- The search upwards from a declared name reaches the declarator. -/
lemma nearestAncestor?_of_mem_declaredNames (h : name ∈ declaredNames declarator) {kind : String}
    (hkind : "qualified_identifier" ≠ kind) :
    name.nearestAncestor? kind =
      if declarator.kind = kind then some declarator else declarator.nearestAncestor? kind := by
  rcases of_mem_declaredNames h with hname | ⟨qualified, hqualified, hqkind, hname⟩
  · exact Place.nearestAncestor?_of_mem_children hname kind
  · have hskip : ¬ qualified.kind = kind := fun heq => hkind (hqkind.symm.trans heq)
    rw [Place.nearestAncestor?_of_mem_children hname, if_neg hskip,
      Place.nearestAncestor?_of_mem_children hqualified]

/-- The function declarator above the name of a match is the one in which the match has it. -/
lemma nearestAncestor?_of_isDeclarator (h : found.IsDeclarator declarator) :
    found.name.nearestAncestor? "function_declarator" = some declarator := by
  rw [nearestAncestor?_of_mem_declaredNames h.2 (by decide),
    if_pos (of_mem_functionDeclarators h.1).1]

/-- There is but one function declarator in which a match of a function has its name. -/
lemma existsUnique_isDeclarator (h : found ∈ functionMatches place) :
    ∃! declarator, found.IsDeclarator declarator := by
  obtain ⟨declarator, hdeclarator⟩ := (mem_functionMatches_iff.1 h).2.2
  refine ⟨declarator, hdeclarator, fun other hother => ?_⟩
  rw [← Option.some.injEq, ← nearestAncestor?_of_isDeclarator hother,
    nearestAncestor?_of_isDeclarator hdeclarator]

/-- The definition above the name of a match of a function is its outer node, if the declarator there is
no definition as well. -/
lemma nearestAncestor?_of_mem_functionMatches (h : found ∈ functionMatches place)
    (hnested : ∀ child ∈ place.inField "declarator", child.kind ≠ "function_definition") :
    found.name.nearestAncestor? "function_definition" = some found.outer := by
  obtain ⟨hkind, rfl, declarator, hdeclarator, hname⟩ := mem_functionMatches_iff.1 h
  obtain ⟨hdkind, child, hchild, hinside⟩ := of_mem_functionDeclarators hdeclarator
  have houter : child.nearestAncestor? "function_definition" = some found.outer := by
    rw [Place.nearestAncestor?_of_mem_children (Place.mem_inField_iff.1 hchild).1,
      if_pos (Place.isA_iff.1 hkind).2]
  have hskip : ¬ declarator.kind = "function_definition" := by
    rw [hdkind]
    decide
  rw [nearestAncestor?_of_mem_declaredNames hname (by decide), if_neg hskip]
  rcases hinside with rfl | hinside
  · exact houter
  · rw [Place.nearestAncestor?_of_mem_children hinside, if_neg (hnested child hchild), houter]

/-- The node above the name of a match of a simple pattern is its outer node, if the name is right below
that. -/
lemma nearestAncestor?_of_mem_matchesOf {kind : String} {names : Place Node → List (Place Node)}
    (hnames : ∀ name ∈ names place, name ∈ place.children) (h : found ∈ matchesOf kind names place) :
    found.name.nearestAncestor? kind = some found.outer := by
  obtain ⟨hkind, name, hname, rfl⟩ := mem_matchesOf_iff.1 h
  rw [Place.nearestAncestor?_of_mem_children (hnames name hname), if_pos (Place.isA_iff.1 hkind).2]

/-- The kinds of node that define what bears a name, by category. -/
def definitionKinds : List (Category × String) :=
  [(.functions, "function_definition"), (.classes, "class_specifier"),
    (.structs, "struct_specifier"), (.namespaces, "namespace_definition")]

/-- **Upwards and downwards agree.**  From the name of a match of a definition, the first node above that
is of the kind of a definition is the outer node of the match. -/
lemma nearestAncestor?_of_mem_allMatches {tree : SyntaxTree} (hnested : tree.NoNestedDefinition)
    (source : ByteArray) {kind : String} (hkind : (category, kind) ∈ definitionKinds)
    (h : found ∈ allMatches category (tree.read source)) :
    found.name.nearestAncestor? kind = some found.outer := by
  obtain ⟨place, hplace, hfound⟩ := mem_allMatches_iff.1 h
  have htype : ∀ name ∈ typeNames place, name ∈ place.children := fun name hname =>
    (Place.mem_inField_iff.1 (Place.mem_inFieldOf_iff.1 hname).1).1
  simp only [definitionKinds, List.mem_cons, Prod.mk.injEq, List.not_mem_nil, or_false] at hkind
  rcases hkind with ⟨rfl, rfl⟩ | ⟨rfl, rfl⟩ | ⟨rfl, rfl⟩ | ⟨rfl, rfl⟩
  · refine nearestAncestor?_of_mem_functionMatches hfound fun child hchild => ?_
    obtain ⟨hbelow, -, hfield⟩ := Place.mem_inField_iff.1 hchild
    have houter : place.kind = "function_definition" :=
      (Place.isA_iff.1 (mem_functionMatches_iff.1 hfound).1).2
    exact hnested.read source place hplace child hbelow houter hfield
  · exact nearestAncestor?_of_mem_matchesOf htype hfound
  · exact nearestAncestor?_of_mem_matchesOf htype hfound
  · rw [matchesAt_namespaces] at hfound
    have hname : ∀ name ∈ place.inField "name", name ∈ place.children := fun name hname =>
      (Place.mem_inField_iff.1 hname).1
    exact nearestAncestor?_of_mem_matchesOf hname hfound

end Query

end CppDeps
