import CppDeps.Capture
import CppDeps.Symbol
import CppDeps.Text

/-!
# From captures to symbols

Each captured name is completed from the nodes around it: the definition it belongs to, the
parameters, the modifiers, and the namespace or class that it stands in.  A name whose definition
is missing is passed over, so a tree with faults still gives whatever is well formed.
-/

namespace CppDeps

namespace Extraction

/-! ## Kinds of node -/

/-- The kinds of node that name the type of a result. -/
def returnTypeKinds : List String :=
  ["primitive_type", "type_identifier", "qualified_identifier"]

/-- The kinds of node that are parameters. -/
def parameterKinds : List String :=
  ["parameter_declaration", "optional_parameter_declaration"]

/-- The kinds of node that mark a virtual function. -/
def virtualKinds : List String :=
  ["virtual", "virtual_function_specifier"]

/-- The kinds of node that name a namespace. -/
def namespaceNameKinds : List String :=
  ["identifier", "namespace_identifier", "nested_namespace_specifier"]

/-! ## Around a definition -/

/-- Does the definition stand right inside a template? -/
def isTemplated (definition : Place Node) : Bool :=
  match definition.parent? with
  | some parent => parent.kind == "template_declaration"
  | none => false

/-- The kinds of child that name the scope which a node opens; none if it opens no scope. -/
def scopeNameKinds (kind : String) : List String :=
  if kind = "namespace_definition" then namespaceNameKinds
  else if kind = "class_specifier" ∨ kind = "struct_specifier" then ["type_identifier"]
  else []

/-- The name of the scope that a node opens, if it opens one and has a name. -/
def scopeName? (tree : Tree Node) : Option String :=
  (tree.firstChild? (scopeNameKinds tree.kind)).map Tree.text

/-- The name of the nearest named scope around a place. -/
def enclosingScope? (place : Place Node) : Option String :=
  place.ancestors.findSome? scopeName?

/-- The qualifier of a name that is the last part of a qualified one. -/
def qualifier? (name : Place Node) : Option String :=
  match name.parent? with
  | some parent =>
    if parent.kind = "qualified_identifier" then
      ((Text.beforeLastColons parent.text).map Text.trim).filter fun scope => !scope.isEmpty
    else none
  | none => none

/-- The parameters of a function declarator, as written. -/
def parameters (declarator : Tree Node) : List String :=
  let lists := declarator.children.filter fun child => child.kind == "parameter_list"
  ((lists.flatMap Tree.children).filter fun child => parameterKinds.contains child.kind).map
    Tree.text

/-- Has the definition a storage class that says `static`? -/
def isStatic (definition : Tree Node) : Bool :=
  definition.children.any fun child =>
    child.kind == "storage_class_specifier" && Text.contains child.text "static"

/-! ## From a name to what it names -/

/-- The include directive of a path. -/
def includeOf (path : Place Node) : Include where
  path := Text.trimBoth (fun c => c == '"' || c == '<' || c == '>') path.text
  line := path.datum.startLine
  isSystem :=
    match path.parent? with
    | some directive => Text.contains directive.text "<"
    | none => false

/-- The function of a name, given its definition. -/
def functionOf (name definition : Place Node) : Symbol where
  name := name.text
  kind := .function
  startLine := definition.datum.startLine
  endLine := definition.datum.endLine
  scope := (enclosingScope? definition).or (qualifier? name)
  params :=
    match name.nearestAncestor? "function_declarator" with
    | some declarator => parameters declarator.tree
    | none => []
  returnType := (definition.tree.firstChild? returnTypeKinds).map Tree.text
  isTemplate := isTemplated definition
  isVirtual := (definition.tree.firstChild? virtualKinds).isSome
  isStatic := isStatic definition.tree

/-- The class of a name, given its definition. -/
def classOf (name definition : Place Node) : Symbol where
  name := name.text
  kind := .classType
  startLine := definition.datum.startLine
  endLine := definition.datum.endLine
  scope := enclosingScope? definition
  isTemplate := isTemplated definition

/-- The struct of a name, given its definition.  Its scope is not recorded. -/
def structOf (name definition : Place Node) : Symbol where
  name := name.text
  kind := .structType
  startLine := definition.datum.startLine
  endLine := definition.datum.endLine
  isTemplate := isTemplated definition

/-- The namespace of a name, given its definition. -/
def namespaceOf (name definition : Place Node) : Symbol where
  name := ((definition.tree.firstChild? namespaceNameKinds).map Tree.text).getD name.text
  kind := .nameSpace
  startLine := definition.datum.startLine
  endLine := definition.datum.endLine

/-- The symbols of names whose definitions are of a kind. -/
def symbolsOf (kind : String) (symbolOf : Place Node → Place Node → Symbol)
    (names : List (Place Node)) : List Symbol :=
  names.filterMap fun name => (name.nearestAncestor? kind).map (symbolOf name)

/-! ## All symbols of a file -/

/-- The symbols of a file with the given captures; none at all where the file could not be
parsed. -/
def extract (filePath : String) (captures : Option CaptureSet) : FileSymbols :=
  match captures with
  | none => { filePath := filePath }
  | some captures =>
    { filePath := filePath
      functions :=
        symbolsOf "function_definition" functionOf (captures.named .functions)
      classes := symbolsOf "class_specifier" classOf (captures.named .classes)
      structs := symbolsOf "struct_specifier" structOf (captures.named .structs)
      namespaces :=
        symbolsOf "namespace_definition" namespaceOf (captures.named .namespaces)
      includes := (captures.named .includes).map includeOf
      calledNames :=
        NameSet.ofList
          (((captures.named .callExpressions).map Place.text).filter fun name => !name.isEmpty) }

/-- The symbols of a parsed file. -/
def extractSource (filePath : String) (tree : SyntaxTree) (source : ByteArray) : FileSymbols :=
  extract filePath (some (Query.captureSet (tree.read source)))

end Extraction

end CppDeps
