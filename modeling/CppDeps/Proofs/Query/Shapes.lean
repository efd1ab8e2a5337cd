import CppDeps.Proofs.Capture.Order
import CppDeps.Proofs.Query.Matches

/-!
# Patterns see shapes only

The patterns ask for kinds and roles, and the captures are ordered by the bytes they span.  None of this
is text.  So whatever texts are put at the nodes of a tree, the patterns match at the same places, and
the same nodes are captured in the same order (`Query.capturedMatches_map`); only the texts of the
captured nodes differ.
-/

namespace CppDeps

/-- A change of the texts of nodes, and of nothing else. -/
def KeepsShape (f : Node → Node) : Prop :=
  ∀ node, (f node).toShape = node.toShape

variable {f : Node → Node} {place definition declarator : Place Node}

/-- If a choice from each changed element is the changed choice, then so are the choices from all. -/
lemma flatMap_map_of_forall {α β : Type*} {g : α → α} {g' : β → β} {choose : α → List β}
    (h : ∀ a, choose (g a) = (choose a).map g') (l : List α) :
    (l.map g).flatMap choose = (l.flatMap choose).map g' := by
  rw [List.flatMap_map, List.map_flatMap]
  exact List.flatMap_congr fun a _ => h a

/-- If a test does not see a change, the changed elements that pass are those that passed. -/
lemma filter_map_of_forall {α : Type*} {g : α → α} {test : α → Bool} (h : ∀ a, test (g a) = test a)
    (l : List α) : (l.map g).filter test = (l.filter test).map g := by
  rw [List.filter_map]
  congr 1
  exact List.filter_congr fun a _ => h a

namespace Place

/-! ## Around a place -/

/-- The shape of a place is kept. -/
lemma toShape_map (h : KeepsShape f) (place : Place Node) :
    (place.map f).datum.toShape = place.datum.toShape := by
  rw [datum_map]
  exact h place.datum

/-- The kind of a place is kept. -/
lemma kind_map (h : KeepsShape f) (place : Place Node) : (place.map f).kind = place.kind :=
  congrArg Shape.kind (toShape_map h place)

/-- The place right above a changed place is the changed one. -/
lemma parent?_map (f : Node → Node) (place : Place Node) :
    (place.map f).parent? = place.parent?.map (map f) := by
  obtain ⟨tree, ancestors⟩ := place
  cases ancestors <;> rfl

/-- The search upwards from a changed place ends at the changed place. -/
lemma nearestAncestor?_map (h : KeepsShape f) (place : Place Node) (kind : String) :
    (place.map f).nearestAncestor? kind = (place.nearestAncestor? kind).map (map f) := by
  obtain ⟨tree, ancestors⟩ := place
  show nearest? kind (ancestors.map (Tree.map f)) = (nearest? kind ancestors).map (map f)
  induction ancestors with
  | nil => rfl
  | cons parent above ih =>
    have hkind : (parent.map f).kind = parent.kind := kind_map h ⟨parent, above⟩
    rw [List.map_cons, nearest?, nearest?, hkind]
    split
    · rfl
    · exact ih

/-! ## Steps of a pattern -/

/-- A node is still of a kind that a pattern asks for. -/
lemma isA_map (h : KeepsShape f) (place : Place Node) (kind : String) :
    (place.map f).isA kind = place.isA kind := by
  have hnamed : (place.map f).datum.isNamed = place.datum.isNamed :=
    congrArg Shape.isNamed (toShape_map h place)
  rw [isA, isA, kind_map h, hnamed]

/-- The children in a role still play it. -/
lemma inField_map (h : KeepsShape f) (place : Place Node) (field : String) :
    (place.map f).inField field = (place.inField field).map (map f) := by
  rw [inField, inField, children_map]
  refine filter_map_of_forall (fun child => ?_) _
  have hshape := toShape_map h child
  have hnamed : (child.map f).datum.isNamed = child.datum.isNamed :=
    congrArg Shape.isNamed hshape
  have hfield : (child.map f).datum.field = child.datum.field := congrArg Shape.field hshape
  rw [hnamed, hfield]

/-- The children of some kinds in a role are so still. -/
lemma inFieldOf_map (h : KeepsShape f) (place : Place Node) (field : String) (kinds : List String) :
    (place.map f).inFieldOf field kinds = (place.inFieldOf field kinds).map (map f) := by
  rw [inFieldOf, inFieldOf, inField_map h]
  refine filter_map_of_forall (fun child => ?_) _
  rw [kind_map h]

end Place

/-- The match at which other texts stand. -/
def Match.map (f : Node → Node) (found : Match) : Match where
  pattern := found.pattern
  outer := found.outer.map f
  name := found.name.map f

namespace Query

/-! ## Patterns -/

/-- The names declared in a function declarator are those declared in the changed one. -/
lemma declaredNames_map (h : KeepsShape f) (declarator : Place Node) :
    declaredNames (declarator.map f) = (declaredNames declarator).map (Place.map f) := by
  unfold declaredNames
  rw [Place.inField_map h]
  refine flatMap_map_of_forall (fun child => ?_) _
  rw [Place.kind_map h]
  split
  · rfl
  · split
    · exact Place.inFieldOf_map h child "name" ["identifier"]
    · rfl

/-- The function declarators of a changed definition are the changed ones. -/
lemma functionDeclarators_map (h : KeepsShape f) (definition : Place Node) :
    functionDeclarators (definition.map f) =
      (functionDeclarators definition).map (Prod.map id (Place.map f)) := by
  unfold functionDeclarators
  rw [Place.inField_map h]
  refine flatMap_map_of_forall (fun child => ?_) _
  have hinside : (child.map f).children.filter (fun place => place.isA "function_declarator") =
      (child.children.filter fun place => place.isA "function_declarator").map (Place.map f) := by
    rw [Place.children_map]
    exact filter_map_of_forall (fun place => Place.isA_map h place _) _
  rw [Place.kind_map h, hinside, List.map_append, List.map_map, List.map_map]
  congr 1
  split <;> rfl

/-- The callees of a changed call are the changed ones. -/
lemma callees_map (h : KeepsShape f) (call : Place Node) :
    callees (call.map f) = (callees call).map (Place.map f) := by
  unfold callees
  rw [Place.inField_map h]
  refine flatMap_map_of_forall (fun child => ?_) _
  rw [Place.kind_map h]
  split
  · rfl
  · split
    · exact Place.inFieldOf_map h child "name" ["identifier"]
    · split
      · exact Place.inFieldOf_map h child "field" ["field_identifier"]
      · rfl

/-- A simple pattern matches at a changed place as at the place, if it does so below it. -/
lemma matchesOf_map (h : KeepsShape f) {names : Place Node → List (Place Node)}
    (hnames : ∀ place, names (place.map f) = (names place).map (Place.map f)) (kind : String)
    (place : Place Node) :
    matchesOf kind names (place.map f) = (matchesOf kind names place).map (Match.map f) := by
  unfold matchesOf
  rw [Place.isA_map h]
  split
  · rw [hnames, List.map_map, List.map_map]
    rfl
  · rfl

/-- The functions defined at a changed place are those defined at the place. -/
lemma functionMatches_map (h : KeepsShape f) (place : Place Node) :
    functionMatches (place.map f) = (functionMatches place).map (Match.map f) := by
  unfold functionMatches
  rw [Place.isA_map h]
  split
  · rw [functionDeclarators_map h, List.flatMap_map, List.map_flatMap]
    refine List.flatMap_congr fun declarator _ => ?_
    obtain ⟨pattern, declarator⟩ := declarator
    show (declaredNames (declarator.map f)).map _ = _
    rw [declaredNames_map h, List.map_map, List.map_map]
    rfl
  · rfl

/-- The matches of a category at a changed place are the changed matches. -/
lemma matchesAt_map (h : KeepsShape f) (category : Category) (place : Place Node) :
    matchesAt category (place.map f) = (matchesAt category place).map (Match.map f) := by
  cases category with
  | includes =>
    exact matchesOf_map h (fun place => Place.inFieldOf_map h place "path" _) "preproc_include" place
  | functions => exact functionMatches_map h place
  | classes =>
    exact matchesOf_map h (fun place => Place.inFieldOf_map h place "name" _) "class_specifier" place
  | structs =>
    exact matchesOf_map h (fun place => Place.inFieldOf_map h place "name" _) "struct_specifier" place
  | namespaces =>
    rw [matchesAt_namespaces]
    exact matchesOf_map h (fun place => Place.inField_map h place "name") _ place
  | callExpressions => exact matchesOf_map h (callees_map h) "call_expression" place

/-- The matches of a category in a changed tree are the changed matches. -/
lemma allMatches_map (h : KeepsShape f) (category : Category) (tree : Tree Node) :
    allMatches category (tree.map f) = (allMatches category tree).map (Match.map f) := by
  unfold allMatches
  rw [Tree.places_map, List.flatMap_map, List.map_flatMap]
  exact List.flatMap_congr fun place _ => matchesAt_map h category place

end Query

namespace PendingMatch

/-! ## Captures -/

/-- The pending match at which other texts stand. -/
def map (f : Node → Node) (p : PendingMatch) : PendingMatch where
  found := p.found.map f
  outerTaken := p.outerTaken

/-- The node captured next from a changed match is the changed one. -/
lemma head_map (f : Node → Node) (p : PendingMatch) : (p.map f).head = p.head.map f := by
  obtain ⟨found, outerTaken⟩ := p
  cases outerTaken <;> rfl

/-- A changed match is the changed one after its next capture was taken, too. -/
lemma toList_advance_map (f : Node → Node) (p : PendingMatch) :
    (p.map f).advance.toList = p.advance.toList.map (map f) := by
  obtain ⟨found, outerTaken⟩ := p
  cases outerTaken <;> rfl

/-- The order of captures depends on shapes only. -/
lemma precedes_map (h : KeepsShape f) (p q : PendingMatch) :
    (p.map f).precedes (q.map f) = p.precedes q := by
  have hstart : ∀ r : PendingMatch, (r.map f).head.datum.startByte = r.head.datum.startByte := by
    intro r
    rw [head_map]
    exact congrArg Shape.startByte (Place.toShape_map h r.head)
  have hend : ∀ r : PendingMatch, (r.map f).head.datum.endByte = r.head.datum.endByte := by
    intro r
    rw [head_map]
    exact congrArg Shape.endByte (Place.toShape_map h r.head)
  unfold precedes
  simp only [hstart, hend]
  rfl

/-- The next capture of changed matches is taken from the same one of them. -/
lemma takeFirst_map (h : KeepsShape f) (pending : List PendingMatch) :
    takeFirst (pending.map (map f)) =
      (takeFirst pending).map (Prod.map (map f) (List.map (map f))) := by
  induction pending with
  | nil => rfl
  | cons p pending ih =>
    rw [List.map_cons, takeFirst, takeFirst, ih]
    cases takeFirst pending with
    | none =>
      simp only [Option.map_none, Option.map_some, Prod.map_apply, toList_advance_map]
    | some first =>
      obtain ⟨q, rest⟩ := first
      simp only [Option.map_some, Prod.map_apply, precedes_map h]
      split
      · rfl
      · simp only [Option.map_some, Prod.map_apply, List.map_append, toList_advance_map]

/-- All captures of changed matches are taken from the same ones of them. -/
lemma taken_map (h : KeepsShape f) (count : Nat) (pending : List PendingMatch) :
    taken count (pending.map (map f)) = (taken count pending).map (map f) := by
  induction count generalizing pending with
  | zero => rfl
  | succ count ih =>
    rw [taken, taken, takeFirst_map h]
    cases takeFirst pending with
    | none => rfl
    | some first =>
      obtain ⟨p, rest⟩ := first
      simp only [Option.map_some, Prod.map_apply, List.map_cons, ih]

end PendingMatch

namespace Query

/-- **The same matches in the same order.**  In a tree with other texts the same matches are captured in
the same order. -/
theorem capturedMatches_map (h : KeepsShape f) (category : Category) (tree : Tree Node) :
    capturedMatches category (tree.map f) = (capturedMatches category tree).map (Match.map f) := by
  have hcompleted : ∀ p : PendingMatch,
      (p.map f).completed = p.completed.map (Match.map f) := by
    intro p
    obtain ⟨found, outerTaken⟩ := p
    cases outerTaken <;> rfl
  have hpending : (allMatches category (tree.map f)).map (fun found => ⟨found, false⟩) =
      ((allMatches category tree).map fun found => (⟨found, false⟩ : PendingMatch)).map
        (PendingMatch.map f) := by
    rw [allMatches_map h, List.map_map, List.map_map]
    rfl
  unfold capturedMatches
  simp only [hpending, List.length_map, PendingMatch.taken_map h, List.flatMap_map, List.map_flatMap]
  exact List.flatMap_congr fun p _ => hcompleted p

/-- The names captured in a tree with other texts are the same nodes. -/
lemma named_captureSet_map (h : KeepsShape f) (category : Category) (tree : Tree Node) :
    (captureSet (tree.map f)).named category =
      ((captureSet tree).named category).map (Place.map f) := by
  rw [named_captureSet, named_captureSet, capturedMatches_map h, List.map_map, List.map_map]
  rfl

end Query

end CppDeps
