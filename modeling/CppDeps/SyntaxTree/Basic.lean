/-!
# Syntax trees

A parsed file is a tree of nodes with ordered children.  A *place* is a node seen together with the
nodes around it, so that one can go up from it as well as down; the places of a tree are listed in
preorder.

The shape of a tree does not depend on the text of the file.  The text of each node is cut out of
the bytes of the file afterwards, and is empty where these bytes are no valid UTF-8.
-/

namespace CppDeps

universe u v

/-- A tree with data at its nodes. -/
inductive Tree (α : Type u) where
  | node (datum : α) (children : List (Tree α))

namespace Tree

variable {α : Type u} {β : Type v}

/-- What stands at the root. -/
def datum : Tree α → α
  | .node datum _ => datum

/-- The trees right below the root, in order. -/
def children : Tree α → List (Tree α)
  | .node _ children => children

mutual

/-- Changes what stands at each node. -/
def map (f : α → β) : Tree α → Tree β
  | .node datum children => .node (f datum) (mapAll f children)

/-- Changes what stands at each node of several trees. -/
def mapAll (f : α → β) : List (Tree α) → List (Tree β)
  | [] => []
  | tree :: trees => map f tree :: mapAll f trees

end

end Tree

/-! ## Places -/

/-- A node of a tree: the tree below it, and the trees around it from the nearest outwards. -/
structure Place (α : Type u) where
  tree : Tree α
  ancestors : List (Tree α)

namespace Place

variable {α : Type u}

/-- What stands at the place. -/
def datum (place : Place α) : α :=
  place.tree.datum

/-- The place right above. -/
def parent? (place : Place α) : Option (Place α) :=
  match place.ancestors with
  | [] => none
  | tree :: above => some ⟨tree, above⟩

/-- The places right below, in order. -/
def children (place : Place α) : List (Place α) :=
  place.tree.children.map fun child => ⟨child, place.tree :: place.ancestors⟩

end Place

namespace Tree

variable {α : Type u}

mutual

/-- The places of a tree that stands below `ancestors`, in preorder. -/
def placesBelow (ancestors : List (Tree α)) : Tree α → List (Place α)
  | .node datum children =>
    ⟨.node datum children, ancestors⟩ ::
      placesOfAll (.node datum children :: ancestors) children

/-- The places of several trees that stand below `ancestors`, in preorder. -/
def placesOfAll (ancestors : List (Tree α)) : List (Tree α) → List (Place α)
  | [] => []
  | tree :: trees => placesBelow ancestors tree ++ placesOfAll ancestors trees

end

/-- All places of a tree, in preorder. -/
def places (tree : Tree α) : List (Place α) :=
  placesBelow [] tree

end Tree

/-! ## Syntax nodes -/

/-- What a parser says of a node, apart from its text.  Lines are counted from 1; the bytes are
those from `startByte` to just before `endByte`. -/
structure Shape where
  /-- The grammatical kind. -/
  kind : String
  /-- The role of the node under its parent, if it has one. -/
  field : Option String := none
  /-- Is the node a named construct, as opposed to a bare token? -/
  isNamed : Bool := true
  startByte : Nat := 0
  endByte : Nat := 0
  startLine : Nat
  endLine : Nat
  deriving DecidableEq, Repr

/-- A node with its text. -/
structure Node extends Shape where
  text : String
  deriving DecidableEq, Repr

/-- The tree of a parsed file, without texts. -/
abbrev SyntaxTree := Tree Shape

/-- The text between two bytes of a file; empty if these bytes are no valid UTF-8. -/
def textBetween (source : ByteArray) (startByte endByte : Nat) : String :=
  (String.fromUTF8? (source.extract startByte endByte)).getD ""

/-- A node with the text that the file has for it. -/
def Shape.read (source : ByteArray) (shape : Shape) : Node :=
  { shape with text := textBetween source shape.startByte shape.endByte }

/-- The tree of a parsed file with the texts of its nodes. -/
def SyntaxTree.read (tree : SyntaxTree) (source : ByteArray) : Tree Node :=
  tree.map (Shape.read source)

namespace Tree

/-- The kind of a node. -/
def kind (tree : Tree Node) : String :=
  tree.datum.kind

/-- The text of a node. -/
def text (tree : Tree Node) : String :=
  tree.datum.text

/-- The first child of one of the given kinds. -/
def firstChild? (kinds : List String) (tree : Tree Node) : Option (Tree Node) :=
  tree.children.find? fun child => kinds.contains child.kind

end Tree

namespace Place

/-- The kind of the node at a place. -/
def kind (place : Place Node) : String :=
  place.tree.kind

/-- The text of the node at a place. -/
def text (place : Place Node) : String :=
  place.tree.text

/-- Of ancestors from the nearest outwards, the first of a kind. -/
def nearest? (kind : String) : List (Tree Node) → Option (Place Node)
  | [] => none
  | tree :: above => if tree.kind = kind then some ⟨tree, above⟩ else nearest? kind above

/-- The nearest place of a kind strictly above. -/
def nearestAncestor? (place : Place Node) (kind : String) : Option (Place Node) :=
  nearest? kind place.ancestors

end Place

end CppDeps
