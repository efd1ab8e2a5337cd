import CppDeps.NameSet

/-!
# What a file declares

The declarations, include directives and called names of one file, as far as they matter for the
links between files.  Lines are counted from 1 and a span includes both its ends.
-/

namespace CppDeps

/-- The kinds of declaration that are told apart. -/
inductive SymbolKind
  | function
  | classType
  | structType
  | nameSpace
  deriving DecidableEq, Repr

/-- A named declaration. -/
structure Symbol where
  name : String
  kind : SymbolKind
  startLine : Nat
  endLine : Nat
  /-- The nearest namespace, class or struct around the declaration, by its own name only. -/
  scope : Option String := none
  /-- The parameters as written. -/
  params : List String := []
  returnType : Option String := none
  isTemplate : Bool := false
  isVirtual : Bool := false
  isStatic : Bool := false
  deriving DecidableEq, Repr

/-- The name with the scope in front, if there is one. -/
def Symbol.qualifiedName (symbol : Symbol) : String :=
  match symbol.scope with
  | some scope => scope ++ "::" ++ symbol.name
  | none => symbol.name

/-- An include directive, its path without the delimiters around it. -/
structure Include where
  path : String
  line : Nat
  isSystem : Bool
  deriving DecidableEq, Repr

/-- All that is known of one file. -/
structure FileSymbols where
  filePath : String
  functions : List Symbol := []
  classes : List Symbol := []
  structs : List Symbol := []
  namespaces : List Symbol := []
  includes : List Include := []
  calledNames : NameSet := NameSet.empty
  deriving DecidableEq, Repr

namespace FileSymbols

/-- The declarations of one kind. -/
def symbolsOf (symbols : FileSymbols) : SymbolKind → List Symbol
  | .function => symbols.functions
  | .classType => symbols.classes
  | .structType => symbols.structs
  | .nameSpace => symbols.namespaces

/-- Does the file declare, include and call nothing? -/
def isEmpty (symbols : FileSymbols) : Bool :=
  symbols.functions.isEmpty && symbols.classes.isEmpty && symbols.structs.isEmpty &&
    symbols.namespaces.isEmpty && symbols.includes.isEmpty && symbols.calledNames.isEmpty

end FileSymbols

end CppDeps
