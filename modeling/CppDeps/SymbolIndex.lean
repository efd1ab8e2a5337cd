import CppDeps.Path
import CppDeps.Symbol
import CppDeps.Table

/-!
# The index of all files

The index holds the symbols of every file that was added and two tables kept in step with them:
the file that last claimed each basename, and the places where each name is defined.  Functions,
classes and structs are definitions of their names, namespaces are not.

Adding a file again takes its old definitions out before the new ones go to the end, while the
file itself keeps its place among the files.
-/

namespace CppDeps

/-- The place of a definition: a file, and a position in its list of declarations of a kind. -/
structure Location where
  file : String
  kind : SymbolKind
  position : Nat
  deriving DecidableEq, Repr

/-- The symbols of all files, with the files by basename and the definitions by name. -/
structure SymbolIndex where
  files : Table FileSymbols
  byBasename : Table String
  byName : Table (List Location)

namespace SymbolIndex

/-- The index without files. -/
def empty : SymbolIndex where
  files := .empty
  byBasename := .empty
  byName := .empty

instance : Inhabited SymbolIndex := ⟨empty⟩

/-! ## Look-up -/

/-- The symbols of a file. -/
def file? (index : SymbolIndex) (path : String) : Option FileSymbols :=
  index.files.get? path

/-- The path, if it is that of a known file. -/
def fileKey? (index : SymbolIndex) (path : String) : Option String :=
  if index.files.contains path then some path else none

/-- The paths of all files, in the order in which they were first added. -/
def filePaths (index : SymbolIndex) : List String :=
  index.files.keys

/-- The number of files. -/
def fileCount (index : SymbolIndex) : Nat :=
  index.files.size

/-- The file last added under a basename. -/
def fileForBasename? (index : SymbolIndex) (name : String) : Option String :=
  index.byBasename.get? name

/-- The places where a name is defined. -/
def definitions (index : SymbolIndex) (name : String) : List Location :=
  (index.byName.get? name).getD []

/-- The declaration at a place. -/
def symbolAt? (index : SymbolIndex) (location : Location) : Option Symbol :=
  (index.file? location.file).bind fun symbols =>
    (symbols.symbolsOf location.kind)[location.position]?

/-- The definitions of a name, each with its file. -/
def resolveCallers (index : SymbolIndex) (name : String) : List (String × Symbol) :=
  (index.definitions name).filterMap fun location =>
    (index.symbolAt? location).map fun symbol => (location.file, symbol)

/-! ## Adding files -/

/-- The kinds of declaration that define their name, in the order in which they are indexed. -/
def indexedKinds : List SymbolKind :=
  [.function, .classType, .structType]

/-- The definitions of a file: each defined name with its place. -/
def locate (path : String) (symbols : FileSymbols) : List (String × Location) :=
  indexedKinds.flatMap fun kind =>
    (symbols.symbolsOf kind).zipIdx.map fun (symbol, position) =>
      (symbol.name, ⟨path, kind, position⟩)

/-- Adds a place to those of a name. -/
def addDefinition (byName : Table (List Location)) (definition : String × Location) :
    Table (List Location) :=
  byName.insert definition.1 ((byName.get? definition.1).getD [] ++ [definition.2])

/-- Takes the places in a file from those of a name; a name without places leaves the table. -/
def dropDefinition (path : String) (byName : Table (List Location)) (name : String) :
    Table (List Location) :=
  match byName.get? name with
  | none => byName
  | some locations =>
    let remaining := locations.filter fun location => location.file != path
    if remaining.isEmpty then byName.erase name else byName.insert name remaining

/-- The table of definitions without those of a file that is about to be replaced. -/
def withoutFile (index : SymbolIndex) (path : String) : Table (List Location) :=
  match index.file? path with
  | none => index.byName
  | some previous =>
    ((locate path previous).map Prod.fst).foldl (dropDefinition path) index.byName

/-- Adds a file, or replaces what is known of it.  The symbols are filed under `path`, whatever
path they carry. -/
def addFile (index : SymbolIndex) (path : String) (symbols : FileSymbols) : SymbolIndex where
  files := index.files.insert path { symbols with filePath := path }
  byBasename := index.byBasename.insert (Path.basename path) path
  byName := (locate path symbols).foldl addDefinition (index.withoutFile path)

end SymbolIndex

end CppDeps
