import CppDeps.Config
import CppDeps.GraphExport
import CppDeps.Json.Basic

/-!
# Records as JSON

How each record of the library is written as a JSON value, and how it is read from one.  Members
are written in a fixed order; a reader takes them in any order and passes over members that it does
not know.  Settings and limits may leave members out, which then take their defaults.
-/

namespace CppDeps

open Json

/-! ## Kinds and reasons -/

namespace SymbolKind

/-- The name of a kind. -/
def label : SymbolKind → String
  | .function => "function"
  | .classType => "class"
  | .structType => "struct"
  | .nameSpace => "namespace"

/-- The kind of a name. -/
def ofLabel? : String → Option SymbolKind
  | "function" => some .function
  | "class" => some .classType
  | "struct" => some .structType
  | "namespace" => some .nameSpace
  | _ => none

/-- Writes a kind. -/
def toJson (kind : SymbolKind) : Json :=
  .string kind.label

/-- Reads a kind. -/
def ofJson? (json : Json) : Option SymbolKind :=
  (variant? json).bind ofLabel?

end SymbolKind

namespace DependencyReason

/-- The name of a reason. -/
def label : DependencyReason → String
  | .includes => "include"
  | .calls => "call"

/-- The reason of a name. -/
def ofLabel? : String → Option DependencyReason
  | "include" => some .includes
  | "call" => some .calls
  | _ => none

/-- Writes a reason. -/
def toJson (reason : DependencyReason) : Json :=
  .string reason.label

/-- Reads a reason. -/
def ofJson? (json : Json) : Option DependencyReason :=
  (variant? json).bind ofLabel?

end DependencyReason

namespace FileType

/-- The name of a type of file. -/
def label : FileType → String
  | .header => "header"
  | .source => "source"
  | .buildScript => "buildScript"
  | .jsonData => "jsonData"
  | .other => "other"

/-- The type of file of a name. -/
def ofLabel? : String → Option FileType
  | "header" => some .header
  | "source" => some .source
  | "buildScript" => some .buildScript
  | "jsonData" => some .jsonData
  | "other" => some .other
  | _ => none

/-- Writes a type of file. -/
def toJson (fileType : FileType) : Json :=
  .string fileType.label

/-- Reads a type of file. -/
def ofJson? (json : Json) : Option FileType :=
  (variant? json).bind ofLabel?

end FileType

/-! ## Symbols -/

namespace Symbol

/-- The members of a symbol. -/
def memberNames : List String :=
  ["name", "kind", "start_line", "end_line", "scope", "params", "return_type", "is_template",
    "is_virtual", "is_static"]

/-- Writes a symbol. -/
def toJson (symbol : Symbol) : Json :=
  .object
    [("name", .string symbol.name),
     ("kind", symbol.kind.toJson),
     ("start_line", count symbol.startLine),
     ("end_line", count symbol.endLine),
     ("scope", option .string symbol.scope),
     ("params", strings symbol.params),
     ("return_type", option .string symbol.returnType),
     ("is_template", .bool symbol.isTemplate),
     ("is_virtual", .bool symbol.isVirtual),
     ("is_static", .bool symbol.isStatic)]

/-- Reads a symbol. -/
def ofJson? (json : Json) : Option Symbol := do
  let record ← record? memberNames json
  let name ← record.required? "name" string?
  let kind ← record.required? "kind" SymbolKind.ofJson?
  let startLine ← record.required? "start_line" count?
  let endLine ← record.required? "end_line" count?
  let scope ← record.optional? "scope" string?
  let params ← record.required? "params" strings?
  let returnType ← record.optional? "return_type" string?
  let isTemplate ← record.required? "is_template" bool?
  let isVirtual ← record.required? "is_virtual" bool?
  let isStatic ← record.required? "is_static" bool?
  return { name, kind, startLine, endLine, scope, params, returnType, isTemplate, isVirtual,
           isStatic }

end Symbol

namespace Include

/-- The members of an include directive. -/
def memberNames : List String := ["path", "line", "is_system"]

/-- Writes an include directive. -/
def toJson (directive : Include) : Json :=
  .object
    [("path", .string directive.path),
     ("line", count directive.line),
     ("is_system", .bool directive.isSystem)]

/-- Reads an include directive. -/
def ofJson? (json : Json) : Option Include := do
  let record ← record? memberNames json
  let path ← record.required? "path" string?
  let line ← record.required? "line" count?
  let isSystem ← record.required? "is_system" bool?
  return { path, line, isSystem }

end Include

namespace NameSet

/-- Writes a set of names. -/
def toJson (names : NameSet) : Json :=
  strings names.toList

/-- Reads a set of names, listed in any order and any number of times. -/
def ofJson? (json : Json) : Option NameSet :=
  (strings? json).map ofList

end NameSet

namespace FileSymbols

/-- The members of the symbols of a file. -/
def memberNames : List String :=
  ["file_path", "functions", "classes", "structs", "namespaces", "includes", "called_names"]

/-- Writes the symbols of a file. -/
def toJson (symbols : FileSymbols) : Json :=
  .object
    [("file_path", .string symbols.filePath),
     ("functions", .array (symbols.functions.map Symbol.toJson)),
     ("classes", .array (symbols.classes.map Symbol.toJson)),
     ("structs", .array (symbols.structs.map Symbol.toJson)),
     ("namespaces", .array (symbols.namespaces.map Symbol.toJson)),
     ("includes", .array (symbols.includes.map Include.toJson)),
     ("called_names", symbols.calledNames.toJson)]

/-- Reads the symbols of a file. -/
def ofJson? (json : Json) : Option FileSymbols := do
  let record ← record? memberNames json
  let filePath ← record.required? "file_path" string?
  let functions ← record.required? "functions" (list? Symbol.ofJson?)
  let classes ← record.required? "classes" (list? Symbol.ofJson?)
  let structs ← record.required? "structs" (list? Symbol.ofJson?)
  let namespaces ← record.required? "namespaces" (list? Symbol.ofJson?)
  let includes ← record.required? "includes" (list? Include.ofJson?)
  let calledNames ← record.required? "called_names" NameSet.ofJson?
  return { filePath, functions, classes, structs, namespaces, includes, calledNames }

end FileSymbols

/-! ## Edges and counts -/

namespace Dependency

/-- The members of an edge. -/
def memberNames : List String := ["source", "target", "reason", "line"]

/-- Writes an edge. -/
def toJson (edge : Dependency) : Json :=
  .object
    [("source", .string edge.source),
     ("target", .string edge.target),
     ("reason", edge.reason.toJson),
     ("line", option count edge.line)]

/-- Reads an edge. -/
def ofJson? (json : Json) : Option Dependency := do
  let record ← record? memberNames json
  let source ← record.required? "source" string?
  let target ← record.required? "target" string?
  let reason ← record.required? "reason" DependencyReason.ofJson?
  let line ← record.optional? "line" count?
  return { source, target, reason, line }

end Dependency

namespace FileMetrics

/-- The members of the counts for a file. -/
def memberNames : List String :=
  ["file", "functions_count", "classes_count", "structs_count", "includes_count",
    "dependencies_count", "dependents_count", "coupling"]

/-- Writes the counts for a file. -/
def toJson (metrics : FileMetrics) : Json :=
  .object
    [("file", .string metrics.file),
     ("functions_count", count metrics.functionsCount),
     ("classes_count", count metrics.classesCount),
     ("structs_count", count metrics.structsCount),
     ("includes_count", count metrics.includesCount),
     ("dependencies_count", count metrics.dependenciesCount),
     ("dependents_count", count metrics.dependentsCount),
     ("coupling", count metrics.coupling)]

/-- Reads the counts for a file. -/
def ofJson? (json : Json) : Option FileMetrics := do
  let record ← record? memberNames json
  let file ← record.required? "file" string?
  let functionsCount ← record.required? "functions_count" count?
  let classesCount ← record.required? "classes_count" count?
  let structsCount ← record.required? "structs_count" count?
  let includesCount ← record.required? "includes_count" count?
  let dependenciesCount ← record.required? "dependencies_count" count?
  let dependentsCount ← record.required? "dependents_count" count?
  let coupling ← record.required? "coupling" count?
  return { file, functionsCount, classesCount, structsCount, includesCount, dependenciesCount,
           dependentsCount, coupling }

end FileMetrics

/-! ## The exported document -/

namespace ExportedSymbol

/-- The members of a declaration shown at a node. -/
def memberNames : List String := ["name", "line", "type"]

/-- Writes a declaration shown at a node. -/
def toJson (symbol : ExportedSymbol) : Json :=
  .object
    [("name", .string symbol.name),
     ("line", count symbol.line),
     ("type", symbol.kind.toJson)]

/-- Reads a declaration shown at a node. -/
def ofJson? (json : Json) : Option ExportedSymbol := do
  let record ← record? memberNames json
  let name ← record.required? "name" string?
  let line ← record.required? "line" count?
  let kind ← record.required? "type" SymbolKind.ofJson?
  return { name, line, kind }

end ExportedSymbol

namespace GraphNode

/-- The members of a node. -/
def memberNames : List String := ["id", "name", "type", "group", "exportedSymbols", "metrics"]

/-- Writes a node. -/
def toJson (node : GraphNode) : Json :=
  .object
    [("id", .string node.id),
     ("name", .string node.name),
     ("type", node.fileType.toJson),
     ("group", .string node.group),
     ("exportedSymbols", .array (node.exportedSymbols.map ExportedSymbol.toJson)),
     ("metrics", node.metrics.toJson)]

/-- Reads a node. -/
def ofJson? (json : Json) : Option GraphNode := do
  let record ← record? memberNames json
  let id ← record.required? "id" string?
  let name ← record.required? "name" string?
  let fileType ← record.required? "type" FileType.ofJson?
  let group ← record.required? "group" string?
  let exportedSymbols ← record.required? "exportedSymbols" (list? ExportedSymbol.ofJson?)
  let metrics ← record.required? "metrics" FileMetrics.ofJson?
  return { id, name, fileType, group, exportedSymbols, metrics }

end GraphNode

namespace GraphLink

/-- The members of a link. -/
def memberNames : List String := ["source", "target", "reason"]

/-- Writes a link. -/
def toJson (link : GraphLink) : Json :=
  .object
    [("source", .string link.source),
     ("target", .string link.target),
     ("reason", link.reason.toJson)]

/-- Reads a link. -/
def ofJson? (json : Json) : Option GraphLink := do
  let record ← record? memberNames json
  let source ← record.required? "source" string?
  let target ← record.required? "target" string?
  let reason ← record.required? "reason" DependencyReason.ofJson?
  return { source, target, reason }

end GraphLink

namespace ExportMetadata

/-- The members of the totals. -/
def memberNames : List String :=
  ["total_files", "total_dependencies", "circular_dependencies"]

/-- Writes the totals. -/
def toJson (metadata : ExportMetadata) : Json :=
  .object
    [("total_files", count metadata.totalFiles),
     ("total_dependencies", count metadata.totalDependencies),
     ("circular_dependencies", count metadata.circularDependencies)]

/-- Reads the totals. -/
def ofJson? (json : Json) : Option ExportMetadata := do
  let record ← record? memberNames json
  let totalFiles ← record.required? "total_files" count?
  let totalDependencies ← record.required? "total_dependencies" count?
  let circularDependencies ← record.required? "circular_dependencies" count?
  return { totalFiles, totalDependencies, circularDependencies }

end ExportMetadata

namespace GraphExport

/-- The members of the document. -/
def memberNames : List String := ["nodes", "links", "metadata"]

/-- Writes the document. -/
def toJson (document : GraphExport) : Json :=
  .object
    [("nodes", .array (document.nodes.map GraphNode.toJson)),
     ("links", .array (document.links.map GraphLink.toJson)),
     ("metadata", document.metadata.toJson)]

/-- Reads the document. -/
def ofJson? (json : Json) : Option GraphExport := do
  let record ← record? memberNames json
  let nodes ← record.required? "nodes" (list? GraphNode.ofJson?)
  let links ← record.required? "links" (list? GraphLink.ofJson?)
  let metadata ← record.required? "metadata" ExportMetadata.ofJson?
  return { nodes, links, metadata }

end GraphExport

/-! ## Limits and settings -/

namespace CycleLimits

/-- The members of limits. -/
def memberNames : List String := ["max_cycles", "max_cycle_length"]

/-- Writes limits. -/
def toJson (limits : CycleLimits) : Json :=
  .object
    [("max_cycles", option count limits.maxCycles),
     ("max_cycle_length", option count limits.maxCycleLength)]

/-- Reads limits. -/
def ofJson? (json : Json) : Option CycleLimits := do
  let record ← partialRecord? memberNames json
  let maxCycles ← record.optional? "max_cycles" count?
  let maxCycleLength ← record.optional? "max_cycle_length" count?
  return { maxCycles, maxCycleLength }

end CycleLimits

namespace AnalysisConfig

/-- The members of settings. -/
def memberNames : List String := ["exclude_dirs", "extensions", "cycles", "top_coupled"]

/-- Writes settings. -/
def toJson (config : AnalysisConfig) : Json :=
  .object
    [("exclude_dirs", strings config.excludeDirs),
     ("extensions", strings config.extensions),
     ("cycles", config.cycles.toJson),
     ("top_coupled", count config.topCoupled)]

/-- Reads settings. -/
def ofJson? (json : Json) : Option AnalysisConfig := do
  let defaults : AnalysisConfig := {}
  let record ← partialRecord? memberNames json
  let excludeDirs ← record.defaulted? "exclude_dirs" defaults.excludeDirs strings?
  let extensions ← record.defaulted? "extensions" defaults.extensions strings?
  let cycles ← record.defaulted? "cycles" defaults.cycles CycleLimits.ofJson?
  let topCoupled ← record.defaulted? "top_coupled" defaults.topCoupled count?
  return { excludeDirs, extensions, cycles, topCoupled }

end AnalysisConfig

end CppDeps
