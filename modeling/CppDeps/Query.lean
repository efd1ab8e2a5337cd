import CppDeps.SyntaxTree.Basic

/-!
# Patterns in syntax trees

Six patterns find what matters in a syntax tree: include directives, definitions of functions,
classes, structs and namespaces, and calls.  A match of a pattern has an outer node and, somewhere
below it, the node that carries a name or path.  Patterns look downward only, and every node that a
pattern gives a kind has to be a named one.
-/

namespace CppDeps

/-- What is looked for in a syntax tree. -/
inductive Category
  | includes
  | functions
  | classes
  | structs
  | namespaces
  | callExpressions
  deriving DecidableEq, Repr

namespace Category

/-- All categories, in order. -/
def all : List Category :=
  [.includes, .functions, .classes, .structs, .namespaces, .callExpressions]

/-- The name of a category. -/
def label : Category → String
  | .includes => "includes"
  | .functions => "functions"
  | .classes => "classes"
  | .structs => "structs"
  | .namespaces => "namespaces"
  | .callExpressions => "call_expressions"

/-- The category of a name. -/
def ofLabel? (label : String) : Option Category :=
  all.find? fun category => category.label == label

/-- The label of the outer node of a match. -/
def outerLabel : Category → String
  | .includes => "include"
  | .functions => "function"
  | .classes => "class"
  | .structs => "struct"
  | .namespaces => "namespace"
  | .callExpressions => "call"

/-- The label of the node that carries the name or path. -/
def nameLabel : Category → String
  | .includes => "path"
  | .functions => "func_name"
  | .classes => "class_name"
  | .structs => "struct_name"
  | .namespaces => "ns_name"
  | .callExpressions => "callee"

end Category

/-! ## Steps of a pattern -/

namespace Place

/-- Is the node at the place a named one of a kind? -/
def isA (place : Place Node) (kind : String) : Bool :=
  place.datum.isNamed && place.kind == kind

/-- The named children in a role. -/
def inField (place : Place Node) (field : String) : List (Place Node) :=
  place.children.filter fun child => child.datum.isNamed && child.datum.field == some field

/-- The named children in a role that are of one of the given kinds. -/
def inFieldOf (place : Place Node) (field : String) (kinds : List String) : List (Place Node) :=
  (place.inField field).filter fun child => kinds.contains child.kind

end Place

/-! ## Matches -/

/-- A match of a pattern. -/
structure Match where
  /-- The number of the pattern among those of its category. -/
  pattern : Nat
  outer : Place Node
  /-- The node that carries the name or path. -/
  name : Place Node

namespace Query

/-- The matches of a pattern for an outer node of a kind, given the name nodes below such a
node. -/
def matchesOf (kind : String) (names : Place Node → List (Place Node)) (place : Place Node) :
    List Match :=
  if place.isA kind then (names place).map fun name => ⟨0, place, name⟩ else []

/-- The paths of an include directive. -/
def includePaths (directive : Place Node) : List (Place Node) :=
  directive.inFieldOf "path" ["string_literal", "system_lib_string"]

/-- The names that a function declarator declares: a plain name, or the last name of a qualified
one. -/
def declaredNames (declarator : Place Node) : List (Place Node) :=
  (declarator.inField "declarator").flatMap fun child =>
    if child.kind = "identifier" ∨ child.kind = "field_identifier" then [child]
    else if child.kind = "qualified_identifier" then child.inFieldOf "name" ["identifier"]
    else []

/-- The function declarators of a function definition, each with the number of its pattern: the
declarator itself (0), or one right inside a declarator that wraps it (1). -/
def functionDeclarators (definition : Place Node) : List (Nat × Place Node) :=
  (definition.inField "declarator").flatMap fun declarator =>
    (if declarator.kind = "function_declarator" then [(0, declarator)] else []) ++
      (declarator.children.filter fun child => child.isA "function_declarator").map
        fun child => (1, child)

/-- The matches for the definition of a function. -/
def functionMatches (place : Place Node) : List Match :=
  if place.isA "function_definition" then
    (functionDeclarators place).flatMap fun (pattern, declarator) =>
      (declaredNames declarator).map fun name => ⟨pattern, place, name⟩
  else []

/-- The name of a class or struct. -/
def typeNames (specifier : Place Node) : List (Place Node) :=
  specifier.inFieldOf "name" ["type_identifier"]

/-- The names that a call calls: a plain name, the last name of a qualified one, or a member. -/
def callees (call : Place Node) : List (Place Node) :=
  (call.inField "function").flatMap fun child =>
    if child.kind = "identifier" then [child]
    else if child.kind = "qualified_identifier" then child.inFieldOf "name" ["identifier"]
    else if child.kind = "field_expression" then child.inFieldOf "field" ["field_identifier"]
    else []

/-- The matches of a category whose outer node is at a place. -/
def matchesAt : Category → Place Node → List Match
  | .includes => matchesOf "preproc_include" includePaths
  | .functions => functionMatches
  | .classes => matchesOf "class_specifier" typeNames
  | .structs => matchesOf "struct_specifier" typeNames
  | .namespaces => matchesOf "namespace_definition" fun place => place.inField "name"
  | .callExpressions => matchesOf "call_expression" callees

/-- All matches of a category in a tree, in the preorder of their outer nodes. -/
def allMatches (category : Category) (tree : Tree Node) : List Match :=
  tree.places.flatMap (matchesAt category)

end Query

end CppDeps
