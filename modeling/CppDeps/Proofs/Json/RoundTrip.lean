import CppDeps.Proofs.Json.Form

/-!
# Round trips through JSON

The records that are exported, or read from an export or from settings, are written faithfully
(`faithful_codecs`): what is written is read back, and what was read is written again as it stood there,
up to tidying.  For each record there is a table of its fields, a predicate saying that its numbers are
small enough to be read, and a lemma.  The three lists of members of a record (the one that is written, the
chain of reads, and the table) have to agree for the lemma to go through.
-/

namespace CppDeps

open Json

/-! ## Kinds and reasons -/

namespace SymbolKind

/-- How kinds are written. -/
def codec : Codec SymbolKind := .variant toJson ofJson?

/-- Kinds are written faithfully. -/
lemma faithful_codec : codec.Faithful fun _ => True := by
  refine .variant (fun _ => rfl) (fun _ => rfl) fun name kind => ⟨fun hread => ?_, ?_⟩
  · unfold ofLabel? at hread
    split at hread <;> cases hread <;> rfl
  · rintro rfl
    cases kind <;> rfl

end SymbolKind

namespace DependencyReason

/-- How reasons are written. -/
def codec : Codec DependencyReason := .variant toJson ofJson?

/-- Reasons are written faithfully. -/
lemma faithful_codec : codec.Faithful fun _ => True := by
  refine .variant (fun _ => rfl) (fun _ => rfl) fun name reason => ⟨fun hread => ?_, ?_⟩
  · unfold ofLabel? at hread
    split at hread <;> cases hread <;> rfl
  · rintro rfl
    cases reason <;> rfl

end DependencyReason

namespace FileType

/-- How types of files are written. -/
def codec : Codec FileType := .variant toJson ofJson?

/-- Types of files are written faithfully. -/
lemma faithful_codec : codec.Faithful fun _ => True := by
  refine .variant (fun _ => rfl) (fun _ => rfl) fun name fileType => ⟨fun hread => ?_, ?_⟩
  · unfold ofLabel? at hread
    split at hread <;> cases hread <;> rfl
  · rintro rfl
    cases fileType <;> rfl

end FileType

/-! ## Symbols -/

namespace Symbol

/-- The numbers in a symbol are below the bound. -/
structure Fits (symbol : Symbol) : Prop where
  startLine : symbol.startLine < 2 ^ 64
  endLine : symbol.endLine < 2 ^ 64

/-- The fields of a symbol. -/
def fields : List (RecordField Symbol) :=
  [.required "name" .text name,
    .required "kind" SymbolKind.codec kind,
    .required "start_line" .count startLine,
    .required "end_line" .count endLine,
    .optional "scope" .text scope,
    .required "params" (.list .text) params,
    .optional "return_type" .text returnType,
    .required "is_template" .truth isTemplate,
    .required "is_virtual" .truth isVirtual,
    .required "is_static" .truth isStatic]

/-- How symbols are written. -/
def codec : Codec Symbol := .record fields toJson ofJson?

/-- Symbols are written faithfully. -/
lemma faithful_codec : codec.Faithful Fits := by
  refine .record (fun _ => rfl) (fun written symbol => ?_) (by decide) ?_
  · cases symbol
    simp only [ofJson?, record?, Record.optional?_eq_defaulted?, Option.pure_def,
      Option.bind_eq_bind, Option.bind_some, Option.bind_eq_some_iff, Option.some.injEq, mk.injEq,
      ↓existsAndEq, and_true]
    exact Iff.rfl
  · simp only [fields, List.Forall]
    exact ⟨.required .text fun _ _ => trivial,
      .required SymbolKind.faithful_codec fun _ _ => trivial,
      .required .count fun _ h => h.startLine,
      .required .count fun _ h => h.endLine,
      .optional .text nofun fun _ _ _ _ => trivial,
      .required (.list .text) fun _ _ _ _ => trivial,
      .optional .text nofun fun _ _ _ _ => trivial,
      .required .truth fun _ _ => trivial,
      .required .truth fun _ _ => trivial,
      .required .truth fun _ _ => trivial⟩

end Symbol

namespace Include

/-- The numbers in an include directive are below the bound. -/
structure Fits (directive : Include) : Prop where
  line : directive.line < 2 ^ 64

/-- The fields of an include directive. -/
def fields : List (RecordField Include) :=
  [.required "path" .text path,
    .required "line" .count line,
    .required "is_system" .truth isSystem]

/-- How include directives are written. -/
def codec : Codec Include := .record fields toJson ofJson?

/-- Include directives are written faithfully. -/
lemma faithful_codec : codec.Faithful Fits := by
  refine .record (fun _ => rfl) (fun written directive => ?_) (by decide) ?_
  · cases directive
    simp only [ofJson?, record?, Option.pure_def,
      Option.bind_eq_bind, Option.bind_some, Option.bind_eq_some_iff, Option.some.injEq, mk.injEq,
      ↓existsAndEq, and_true]
    exact Iff.rfl
  · simp only [fields, List.Forall]
    exact ⟨.required .text fun _ _ => trivial,
      .required .count fun _ h => h.line,
      .required .truth fun _ _ => trivial⟩

end Include

namespace FileSymbols

/-- The numbers in the symbols of a file are below the bound. -/
structure Fits (symbols : FileSymbols) : Prop where
  functions : ∀ symbol ∈ symbols.functions, symbol.Fits
  classes : ∀ symbol ∈ symbols.classes, symbol.Fits
  structs : ∀ symbol ∈ symbols.structs, symbol.Fits
  namespaces : ∀ symbol ∈ symbols.namespaces, symbol.Fits
  includes : ∀ directive ∈ symbols.includes, directive.Fits

/-- The fields of the symbols of a file. -/
def fields : List (RecordField FileSymbols) :=
  [.required "file_path" .text filePath,
    .required "functions" (.list Symbol.codec) functions,
    .required "classes" (.list Symbol.codec) classes,
    .required "structs" (.list Symbol.codec) structs,
    .required "namespaces" (.list Symbol.codec) namespaces,
    .required "includes" (.list Include.codec) includes,
    .required "called_names" .names calledNames]

/-- How the symbols of files are written. -/
def codec : Codec FileSymbols := .record fields toJson ofJson?

/-- The symbols of files are written faithfully. -/
lemma faithful_codec : codec.Faithful Fits := by
  refine .record (fun _ => rfl) (fun written symbols => ?_) (by decide) ?_
  · cases symbols
    simp only [ofJson?, record?, Option.pure_def,
      Option.bind_eq_bind, Option.bind_some, Option.bind_eq_some_iff, Option.some.injEq, mk.injEq,
      ↓existsAndEq, and_true]
    exact Iff.rfl
  · simp only [fields, List.Forall]
    exact ⟨.required .text fun _ _ => trivial,
      .required Symbol.faithful_codec.list fun _ h => h.functions,
      .required Symbol.faithful_codec.list fun _ h => h.classes,
      .required Symbol.faithful_codec.list fun _ h => h.structs,
      .required Symbol.faithful_codec.list fun _ h => h.namespaces,
      .required Include.faithful_codec.list fun _ h => h.includes,
      .required .names fun _ _ => trivial⟩

end FileSymbols

/-! ## Edges and counts -/

namespace Dependency

/-- The numbers in an edge are below the bound. -/
structure Fits (edge : Dependency) : Prop where
  line : ∀ line ∈ edge.line, line < 2 ^ 64

/-- The fields of an edge. -/
def fields : List (RecordField Dependency) :=
  [.required "source" .text source,
    .required "target" .text target,
    .required "reason" DependencyReason.codec reason,
    .optional "line" .count line]

/-- How edges are written. -/
def codec : Codec Dependency := .record fields toJson ofJson?

/-- Edges are written faithfully. -/
lemma faithful_codec : codec.Faithful Fits := by
  refine .record (fun _ => rfl) (fun written edge => ?_) (by decide) ?_
  · cases edge
    simp only [ofJson?, record?, Record.optional?_eq_defaulted?, Option.pure_def,
      Option.bind_eq_bind, Option.bind_some, Option.bind_eq_some_iff, Option.some.injEq, mk.injEq,
      ↓existsAndEq, and_true]
    exact Iff.rfl
  · simp only [fields, List.Forall]
    exact ⟨.required .text fun _ _ => trivial,
      .required .text fun _ _ => trivial,
      .required DependencyReason.faithful_codec fun _ _ => trivial,
      .optional .count nofun fun _ h => h.line⟩

end Dependency

namespace FileMetrics

/-- The counts for a file are below the bound. -/
structure Fits (metrics : FileMetrics) : Prop where
  functionsCount : metrics.functionsCount < 2 ^ 64
  classesCount : metrics.classesCount < 2 ^ 64
  structsCount : metrics.structsCount < 2 ^ 64
  includesCount : metrics.includesCount < 2 ^ 64
  dependenciesCount : metrics.dependenciesCount < 2 ^ 64
  dependentsCount : metrics.dependentsCount < 2 ^ 64
  coupling : metrics.coupling < 2 ^ 64

/-- The fields of the counts for a file. -/
def fields : List (RecordField FileMetrics) :=
  [.required "file" .text file,
    .required "functions_count" .count functionsCount,
    .required "classes_count" .count classesCount,
    .required "structs_count" .count structsCount,
    .required "includes_count" .count includesCount,
    .required "dependencies_count" .count dependenciesCount,
    .required "dependents_count" .count dependentsCount,
    .required "coupling" .count coupling]

/-- How the counts for files are written. -/
def codec : Codec FileMetrics := .record fields toJson ofJson?

/-- The counts for files are written faithfully. -/
lemma faithful_codec : codec.Faithful Fits := by
  refine .record (fun _ => rfl) (fun written metrics => ?_) (by decide) ?_
  · cases metrics
    simp only [ofJson?, record?, Option.pure_def,
      Option.bind_eq_bind, Option.bind_some, Option.bind_eq_some_iff, Option.some.injEq, mk.injEq,
      ↓existsAndEq, and_true]
    exact Iff.rfl
  · simp only [fields, List.Forall]
    exact ⟨.required .text fun _ _ => trivial,
      .required .count fun _ h => h.functionsCount,
      .required .count fun _ h => h.classesCount,
      .required .count fun _ h => h.structsCount,
      .required .count fun _ h => h.includesCount,
      .required .count fun _ h => h.dependenciesCount,
      .required .count fun _ h => h.dependentsCount,
      .required .count fun _ h => h.coupling⟩

end FileMetrics

/-! ## The exported document -/

namespace ExportedSymbol

/-- The numbers in a declaration shown at a node are below the bound. -/
structure Fits (symbol : ExportedSymbol) : Prop where
  line : symbol.line < 2 ^ 64

/-- The fields of a declaration shown at a node. -/
def fields : List (RecordField ExportedSymbol) :=
  [.required "name" .text name,
    .required "line" .count line,
    .required "type" SymbolKind.codec kind]

/-- How declarations shown at nodes are written. -/
def codec : Codec ExportedSymbol := .record fields toJson ofJson?

/-- Declarations shown at nodes are written faithfully. -/
lemma faithful_codec : codec.Faithful Fits := by
  refine .record (fun _ => rfl) (fun written symbol => ?_) (by decide) ?_
  · cases symbol
    simp only [ofJson?, record?, Option.pure_def,
      Option.bind_eq_bind, Option.bind_some, Option.bind_eq_some_iff, Option.some.injEq, mk.injEq,
      ↓existsAndEq, and_true]
    exact Iff.rfl
  · simp only [fields, List.Forall]
    exact ⟨.required .text fun _ _ => trivial,
      .required .count fun _ h => h.line,
      .required SymbolKind.faithful_codec fun _ _ => trivial⟩

end ExportedSymbol

namespace GraphNode

/-- The numbers in a node are below the bound. -/
structure Fits (node : GraphNode) : Prop where
  exportedSymbols : ∀ symbol ∈ node.exportedSymbols, symbol.Fits
  metrics : node.metrics.Fits

/-- The fields of a node. -/
def fields : List (RecordField GraphNode) :=
  [.required "id" .text id,
    .required "name" .text name,
    .required "type" FileType.codec fileType,
    .required "group" .text group,
    .required "exportedSymbols" (.list ExportedSymbol.codec) exportedSymbols,
    .required "metrics" FileMetrics.codec metrics]

/-- How nodes are written. -/
def codec : Codec GraphNode := .record fields toJson ofJson?

/-- Nodes are written faithfully. -/
lemma faithful_codec : codec.Faithful Fits := by
  refine .record (fun _ => rfl) (fun written node => ?_) (by decide) ?_
  · cases node
    simp only [ofJson?, record?, Option.pure_def,
      Option.bind_eq_bind, Option.bind_some, Option.bind_eq_some_iff, Option.some.injEq, mk.injEq,
      ↓existsAndEq, and_true]
    exact Iff.rfl
  · simp only [fields, List.Forall]
    exact ⟨.required .text fun _ _ => trivial,
      .required .text fun _ _ => trivial,
      .required FileType.faithful_codec fun _ _ => trivial,
      .required .text fun _ _ => trivial,
      .required ExportedSymbol.faithful_codec.list fun _ h => h.exportedSymbols,
      .required FileMetrics.faithful_codec fun _ h => h.metrics⟩

end GraphNode

namespace GraphLink

/-- The fields of a link. -/
def fields : List (RecordField GraphLink) :=
  [.required "source" .text source,
    .required "target" .text target,
    .required "reason" DependencyReason.codec reason]

/-- How links are written. -/
def codec : Codec GraphLink := .record fields toJson ofJson?

/-- Links are written faithfully. -/
lemma faithful_codec : codec.Faithful fun _ => True := by
  refine .record (fun _ => rfl) (fun written link => ?_) (by decide) ?_
  · cases link
    simp only [ofJson?, record?, Option.pure_def,
      Option.bind_eq_bind, Option.bind_some, Option.bind_eq_some_iff, Option.some.injEq, mk.injEq,
      ↓existsAndEq, and_true]
    exact Iff.rfl
  · simp only [fields, List.Forall]
    exact ⟨.required .text fun _ _ => trivial,
      .required .text fun _ _ => trivial,
      .required DependencyReason.faithful_codec fun _ _ => trivial⟩

end GraphLink

namespace ExportMetadata

/-- The numbers in the totals are below the bound. -/
structure Fits (metadata : ExportMetadata) : Prop where
  totalFiles : metadata.totalFiles < 2 ^ 64
  totalDependencies : metadata.totalDependencies < 2 ^ 64
  circularDependencies : metadata.circularDependencies < 2 ^ 64

/-- The fields of the totals. -/
def fields : List (RecordField ExportMetadata) :=
  [.required "total_files" .count totalFiles,
    .required "total_dependencies" .count totalDependencies,
    .required "circular_dependencies" .count circularDependencies]

/-- How the totals are written. -/
def codec : Codec ExportMetadata := .record fields toJson ofJson?

/-- The totals are written faithfully. -/
lemma faithful_codec : codec.Faithful Fits := by
  refine .record (fun _ => rfl) (fun written metadata => ?_) (by decide) ?_
  · cases metadata
    simp only [ofJson?, record?, Option.pure_def,
      Option.bind_eq_bind, Option.bind_some, Option.bind_eq_some_iff, Option.some.injEq, mk.injEq,
      ↓existsAndEq, and_true]
    exact Iff.rfl
  · simp only [fields, List.Forall]
    exact ⟨.required .count fun _ h => h.totalFiles,
      .required .count fun _ h => h.totalDependencies,
      .required .count fun _ h => h.circularDependencies⟩

end ExportMetadata

namespace GraphExport

/-- The numbers in a document are below the bound. -/
structure Fits (document : GraphExport) : Prop where
  nodes : ∀ node ∈ document.nodes, node.Fits
  metadata : document.metadata.Fits

/-- The fields of a document. -/
def fields : List (RecordField GraphExport) :=
  [.required "nodes" (.list GraphNode.codec) nodes,
    .required "links" (.list GraphLink.codec) links,
    .required "metadata" ExportMetadata.codec metadata]

/-- How documents are written. -/
def codec : Codec GraphExport := .record fields toJson ofJson?

/-- Documents are written faithfully. -/
lemma faithful_codec : codec.Faithful Fits := by
  refine .record (fun _ => rfl) (fun written document => ?_) (by decide) ?_
  · cases document
    simp only [ofJson?, record?, Option.pure_def,
      Option.bind_eq_bind, Option.bind_some, Option.bind_eq_some_iff, Option.some.injEq, mk.injEq,
      ↓existsAndEq, and_true]
    exact Iff.rfl
  · simp only [fields, List.Forall]
    exact ⟨.required GraphNode.faithful_codec.list fun _ h => h.nodes,
      .required GraphLink.faithful_codec.list fun _ _ _ _ => trivial,
      .required ExportMetadata.faithful_codec fun _ h => h.metadata⟩

end GraphExport

/-! ## Limits and settings -/

namespace CycleLimits

/-- The numbers in limits are below the bound. -/
structure Fits (limits : CycleLimits) : Prop where
  maxCycles : ∀ cap ∈ limits.maxCycles, cap < 2 ^ 64
  maxCycleLength : ∀ bound ∈ limits.maxCycleLength, bound < 2 ^ 64

/-- The fields of limits. -/
def fields : List (RecordField CycleLimits) :=
  [.optional "max_cycles" .count maxCycles,
    .optional "max_cycle_length" .count maxCycleLength]

/-- How limits are written. -/
def codec : Codec CycleLimits := .record fields toJson ofJson?

/-- Limits are written faithfully. -/
lemma faithful_codec : codec.Faithful Fits := by
  refine .record (fun _ => rfl) (fun written limits => ?_) (by decide) ?_
  · cases limits
    simp only [ofJson?, partialRecord?, Record.optional?_eq_defaulted?, Option.pure_def,
      Option.bind_eq_bind, Option.bind_some, Option.bind_eq_some_iff, Option.some.injEq, mk.injEq,
      ↓existsAndEq, and_true]
    exact Iff.rfl
  · simp only [fields, List.Forall]
    exact ⟨.optional .count nofun fun _ h => h.maxCycles,
      .optional .count nofun fun _ h => h.maxCycleLength⟩

end CycleLimits

namespace AnalysisConfig

/-- The numbers in settings are below the bound. -/
structure Fits (config : AnalysisConfig) : Prop where
  cycles : config.cycles.Fits
  topCoupled : config.topCoupled < 2 ^ 64

/-- The fields of settings. -/
def fields : List (RecordField AnalysisConfig) :=
  [.defaulted "exclude_dirs" (.list .text) ({} : AnalysisConfig).excludeDirs excludeDirs,
    .defaulted "extensions" (.list .text) ({} : AnalysisConfig).extensions extensions,
    .defaulted "cycles" CycleLimits.codec ({} : AnalysisConfig).cycles cycles,
    .defaulted "top_coupled" .count ({} : AnalysisConfig).topCoupled topCoupled]

/-- How settings are written. -/
def codec : Codec AnalysisConfig := .record fields toJson ofJson?

/-- Settings are written faithfully. -/
lemma faithful_codec : codec.Faithful Fits := by
  refine .record (fun _ => rfl) (fun written config => ?_) (by decide) ?_
  · cases config
    simp only [ofJson?, partialRecord?, Option.pure_def,
      Option.bind_eq_bind, Option.bind_some, Option.bind_eq_some_iff, Option.some.injEq, mk.injEq,
      ↓existsAndEq, and_true]
    exact Iff.rfl
  · simp only [fields, List.Forall]
    exact ⟨.defaulted (.list .text) fun _ _ _ _ => trivial,
      .defaulted (.list .text) fun _ _ _ _ => trivial,
      .defaulted CycleLimits.faithful_codec fun _ h => h.cycles,
      .defaulted .count fun _ h => h.topCoupled⟩

end AnalysisConfig

/-! ## The round trip -/

/-- **All records** make the round trip through JSON: what is written is read back, and what was read is
written again as it stood there, up to tidying. -/
theorem faithful_codecs :
    GraphExport.codec.Faithful GraphExport.Fits ∧ FileSymbols.codec.Faithful FileSymbols.Fits ∧
      Symbol.codec.Faithful Symbol.Fits ∧ Include.codec.Faithful Include.Fits ∧
      Dependency.codec.Faithful Dependency.Fits ∧ FileMetrics.codec.Faithful FileMetrics.Fits ∧
      CycleLimits.codec.Faithful CycleLimits.Fits ∧ AnalysisConfig.codec.Faithful AnalysisConfig.Fits :=
  ⟨GraphExport.faithful_codec, FileSymbols.faithful_codec, Symbol.faithful_codec, Include.faithful_codec,
    Dependency.faithful_codec, FileMetrics.faithful_codec, CycleLimits.faithful_codec,
    AnalysisConfig.faithful_codec⟩

/-- A function that was written by hand: neither its scope nor its type is given, and there is a note. -/
def annotatedFunction : Json :=
  .object
    [("kind", .string "function"), ("name", .string "main"), ("start_line", Json.count 1),
     ("end_line", Json.count 3), ("params", strings ["int argc"]), ("is_template", .bool false),
     ("is_virtual", .bool false), ("is_static", .bool true), ("checked", .bool true)]

/-- The symbols of a file that were written by hand: the members stand in another order, there is a note
among them, and a name is listed twice. -/
def annotatedSymbols : Json :=
  .object
    [("called_names", strings ["run", "init", "run"]), ("note", .string "by hand"),
     ("functions", .array [annotatedFunction]), ("classes", .array []), ("structs", .array []),
     ("namespaces", .array []), ("includes", .array []), ("file_path", .string "main.cpp")]

/-- What was written by hand means this. -/
def mainSymbols : FileSymbols :=
  { filePath := "main.cpp"
    functions :=
      [{ name := "main", kind := .function, startLine := 1, endLine := 3, params := ["int argc"],
         isStatic := true }]
    calledNames := .ofList ["init", "run"] }

/-- It is read, and written again with the two names in order, without the notes, and with `null` for what
is not given of the function. -/
theorem faithful_codecs_annotatedSymbols :
    FileSymbols.codec.form.Plain annotatedSymbols ∧
      FileSymbols.ofJson? annotatedSymbols = some mainSymbols ∧
      FileSymbols.toJson mainSymbols = FileSymbols.codec.form.tidy annotatedSymbols := by
  have hkind : SymbolKind.codec.form.Plain (.string "function") := ⟨_, rfl⟩
  have hfunction : Symbol.codec.form.Plain annotatedFunction := by
    refine ⟨_, rfl, by decide, ?_⟩
    simp [Symbol.fields, RecordField.required, RecordField.optional, RecordField.defaulted, Codec.text,
      Codec.count, Codec.truth, Codec.list, Form.scalar, Form.list, hkind]
  have hplain : FileSymbols.codec.form.Plain annotatedSymbols := by
    refine ⟨_, rfl, by decide, ?_⟩
    simp [FileSymbols.fields, RecordField.required, Codec.text, Codec.list, Codec.names, Form.scalar,
      Form.list, Form.names, hfunction]
  have hread : FileSymbols.ofJson? annotatedSymbols = some mainSymbols := by
    decide +kernel
  exact ⟨hplain, hread, faithful_codecs.2.1.encode_eq_tidy annotatedSymbols _ hplain hread⟩

end CppDeps
