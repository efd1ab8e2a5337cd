import CppDeps.GraphExport
import CppDeps.Json.Printer
import CppDeps.Json.Records

/-!
# Printed reports

The text printed about a single file and about a directory.  A report is a list of lines.
-/

namespace CppDeps

namespace Report

/-- The text of lines, each with its line end. -/
def render (lines : List String) : String :=
  String.join (lines.map fun line => line ++ "\n")

/-- A heading that tells how many lines follow it. -/
def heading (label : String) (size : Nat) : String :=
  label ++ " (" ++ toString size ++ "):"

/-- A line under a heading. -/
def item (text : String) : String :=
  "  " ++ text

/-! ## A single file -/

/-- The lines that a declaration spans. -/
def span (symbol : Symbol) : String :=
  "lines " ++ toString symbol.startLine ++ "-" ++ toString symbol.endLine

/-- An include directive between its delimiters. -/
def includeLine (directive : Include) : String :=
  let path := if directive.isSystem then "<" ++ directive.path ++ ">"
    else "\"" ++ directive.path ++ "\""
  "line " ++ toString directive.line ++ ": " ++ path

/-- The words in front of a function. -/
def modifiers (symbol : Symbol) : List String :=
  (if symbol.isTemplate then ["template"] else []) ++
    (if symbol.isStatic then ["static"] else []) ++
    (if symbol.isVirtual then ["virtual"] else [])

/-- A function with its modifiers, type, parameters and lines. -/
def functionLine (symbol : Symbol) : String :=
  String.join ((modifiers symbol).map fun word => word ++ " ") ++
    symbol.returnType.getD "" ++ " " ++ symbol.qualifiedName ++
    "(" ++ ", ".intercalate symbol.params ++ ") [" ++ span symbol ++ "]"

/-- A declaration with its lines. -/
def symbolLine (symbol : Symbol) : String :=
  symbol.qualifiedName ++ " [" ++ span symbol ++ "]"

/-- A heading with a line for each element of a list. -/
def listing {α : Type} (label : String) (line : α → String) (items : List α) : List String :=
  heading label items.length :: items.map fun x => item (line x)

/-- The report on a file. -/
def ofFile (symbols : FileSymbols) : List String :=
  ("File: " ++ symbols.filePath) ::
    listing "Includes" includeLine symbols.includes ++
    listing "Functions" functionLine symbols.functions ++
    listing "Classes" symbolLine symbols.classes ++
    listing "Structs" symbolLine symbols.structs ++
    listing "Namespaces" symbolLine symbols.namespaces ++
    listing "Called names" id symbols.calledNames.toList

/-! ## A directory -/

/-- How many cycles a report shows. -/
def shownCycles : Nat := 5

/-- A cycle as a way back to its first file. -/
def cycleLine (cycle : List String) : String :=
  " -> ".intercalate (cycle ++ cycle.head?.toList)

/-- The report on the graph of a directory that was exported to `output`. -/
def ofGraph (graph : DependencyGraph) (report : CycleReport) (metadata : ExportMetadata)
    (topCoupled : Nat) (output : String) : List String :=
  ["Analyzed " ++ toString metadata.totalFiles ++ " files",
   "Found " ++ toString metadata.totalDependencies ++ " dependencies",
   "Found " ++ (if report.truncated then "at least " else "") ++
     toString metadata.circularDependencies ++ " circular dependencies"] ++
    (report.cycles.take shownCycles).map (fun cycle => item (cycleLine cycle)) ++
    ["Most coupled files:"] ++
    (graph.mostCoupled topCoupled).map
      (fun (file, coupling) => item (file ++ ": " ++ toString coupling)) ++
    ["Graph written to " ++ output]

end Report

end CppDeps
