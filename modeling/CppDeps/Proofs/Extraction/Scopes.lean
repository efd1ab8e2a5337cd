import CppDeps.Proofs.Extraction.Definitions
import CppDeps.Proofs.Text

/-!
# The scopes of functions and classes

The scope of a declaration is found by going up from its definition to the nearest namespace, class or
struct with a name.  These are declarations of the same file: their names are found by patterns of their
own, which ask for a named child in the role of the name, while the way up asks for a child of some
kinds only.  Where a tree is such that both ask for the same (`SyntaxTree.WellScoped`), each scope is the
name of a declaration of the file, whose lines hold those of the declaration in it.

A function without such a scope around it takes the qualifier in front of its name, without the white
space around it.
-/

namespace CppDeps

/-- The kinds of node that open a scope, and those that name one. -/
def scopeKinds : List String :=
  ["namespace_definition", "class_specifier", "struct_specifier", "type_identifier", "identifier",
    "namespace_identifier", "nested_namespace_specifier"]

/-- A node of one kind names the scope that a node of another kind opens right above it. -/
def NamesScope (named opens : String) : Prop :=
  (opens = "namespace_definition" ∧
      named ∈ ["identifier", "namespace_identifier", "nested_namespace_specifier"]) ∨
    ((opens = "class_specifier" ∨ opens = "struct_specifier") ∧ named = "type_identifier")

instance : DecidableRel NamesScope :=
  fun _ _ => inferInstanceAs (Decidable (_ ∨ _))

/-- What a grammar guarantees of the trees of parsed files, as far as scopes depend on it. -/
structure SyntaxTree.WellScoped (tree : SyntaxTree) : Prop where
  /-- The lines of a node hold those of its children. -/
  lines_nest : ∀ place ∈ tree.places, ∀ child ∈ place.children,
    place.datum.startLine ≤ child.datum.startLine ∧ child.datum.endLine ≤ place.datum.endLine
  /-- Whatever opens or names a scope is a named construct. -/
  isNamed : ∀ place ∈ tree.places, place.datum.kind ∈ scopeKinds → place.datum.isNamed = true
  noNestedDefinition : tree.NoNestedDefinition
  /-- What names the scope that a node opens stands in the role of the name. -/
  name_field : ∀ place ∈ tree.places, ∀ child ∈ place.children,
    NamesScope child.datum.kind place.datum.kind → child.datum.field = some "name"

/-- A node opens a named scope if it is a namespace, class or struct with a name right below it. -/
def Tree.OpensNamedScope (tree : Tree Node) : Prop :=
  ∃ child ∈ tree.children, NamesScope child.kind tree.kind

/-- The file has a namespace, class or struct of a name whose lines hold those of a declaration. -/
def FileSymbols.HasScopeAround (symbols : FileSymbols) (scope : String) (symbol : Symbol) : Prop :=
  ∃ outer ∈ symbols.namespaces ++ symbols.classes ++ symbols.structs, outer.name = scope ∧
    outer.startLine ≤ symbol.startLine ∧ symbol.endLine ≤ outer.endLine

/-- The scope is written in front of a name: as the qualified name that ends with it has it before the
last `::`, up to how it is written there. -/
def Place.HasQualifier (name : Place Node) (written : String → String → Prop) (scope : String) :
    Prop :=
  ∃ qualified before, name.parent? = some qualified ∧ qualified.kind = "qualified_identifier" ∧
    Text.IsBeforeLastColons qualified.text before ∧ written before scope

/-- What accounts for the scope of a function: a namespace, class or struct of the file around it, or,
if nothing around it opens a named scope, the qualifier of its name, up to how it is written. -/
def FileSymbols.AccountsForScope (symbols : FileSymbols) (written : String → String → Prop)
    (symbol : Symbol) (found : Match) : Prop :=
  ∀ scope, symbol.scope = some scope → symbols.HasScopeAround scope symbol ∨
    ((∀ ancestor ∈ found.outer.ancestors, ¬ ancestor.OpensNamedScope) ∧
      found.name.HasQualifier written scope)

/-- The first child of some kinds is a child of one of them. -/
lemma Tree.of_firstChild?_eq_some {kinds : List String} {tree child : Tree Node}
    (h : tree.firstChild? kinds = some child) : child ∈ tree.children ∧ child.kind ∈ kinds := by
  have hkind : kinds.contains child.kind = true := by
    have hfound := List.find?_some h
    exact hfound
  exact ⟨List.mem_of_find?_eq_some h, List.contains_iff_mem.1 hkind⟩

namespace Extraction

/-- The kinds looked for below a node are those that name the scope which it opens. -/
lemma mem_scopeNameKinds_iff {named opens : String} :
    named ∈ scopeNameKinds opens ↔ NamesScope named opens := by
  unfold scopeNameKinds NamesScope
  split
  · rename_i hnamespace
    have htype : ¬ (opens = "class_specifier" ∨ opens = "struct_specifier") := by
      rw [hnamespace]
      decide
    rw [or_iff_left fun h => htype h.1, and_iff_right hnamespace, namespaceNameKinds]
  · rename_i hnamespace
    refine Iff.trans ?_ (or_iff_right fun h => hnamespace h.1).symm
    split
    · rename_i htype
      rw [List.mem_singleton, and_iff_right htype]
    · rename_i htype
      exact iff_of_false List.not_mem_nil fun h => htype h.1

end Extraction

namespace SyntaxTree

variable {tree : SyntaxTree} {source : ByteArray} {place child : Place Node}

/-- Whatever opens or names a scope is a named construct, whatever the texts are. -/
lemma WellScoped.isNamed_read (h : tree.WellScoped) (hplace : place ∈ (tree.read source).places)
    (hkind : place.kind ∈ scopeKinds) : place.datum.isNamed = true :=
  forall_places_read (P := fun shape => shape.kind ∈ scopeKinds → shape.isNamed = true) h.isNamed
    source place hplace hkind

/-- What names the scope that a node opens is a named one in the role of the name, whatever the texts
are. -/
lemma WellScoped.mem_inField (h : tree.WellScoped) (hplace : place ∈ (tree.read source).places)
    (hchild : child ∈ place.children) (hnames : NamesScope child.kind place.kind) :
    child ∈ place.inField "name" := by
  have hscope : child.kind ∈ scopeKinds := by
    rcases hnames with ⟨-, hname⟩ | ⟨-, hname⟩
    · -- the last three of the kinds name namespaces
      exact List.mem_of_mem_drop (i := 4) hname
    · rw [hname]
      decide
  have hfield := forall_children_read (R := fun shape child =>
    NamesScope child.kind shape.kind → child.field = some "name") h.name_field source place hplace
      child hchild hnames
  exact Place.mem_inField_iff.2
    ⟨hchild, h.isNamed_read (Tree.mem_places_of_mem_children hplace hchild) hscope, hfield⟩

/-- A node above a place of the tree stands at a place itself, and its lines hold those of the place. -/
lemma WellScoped.exists_place_of_mem_ancestors (h : tree.WellScoped)
    (hplace : place ∈ (tree.read source).places) {ancestor : Tree Node}
    (hancestor : ancestor ∈ place.ancestors) :
    ∃ above, (⟨ancestor, above⟩ : Place Node) ∈ (tree.read source).places ∧
      ancestor.datum.startLine ≤ place.datum.startLine ∧
        place.datum.endLine ≤ ancestor.datum.endLine := by
  have hlines := forall_children_read (R := fun shape child =>
    shape.startLine ≤ child.startLine ∧ child.endLine ≤ shape.endLine) h.lines_nest source
  exact Tree.exists_place_of_mem_ancestors
    (R := fun a b : Node => a.startLine ≤ b.startLine ∧ b.endLine ≤ a.endLine)
    (fun hab hbc => ⟨hab.1.trans hbc.1, hbc.2.trans hab.2⟩) hlines hplace hancestor

end SyntaxTree

namespace Extraction

variable {tree : SyntaxTree} {source : ByteArray} {filePath scope : String}
  {place name : Place Node}

/-! ## Named scopes are declarations -/

/-- Where the pattern of a category asks for a node of one kind and some names below it, the declaration
made of such a node and each of these names is one of the file. -/
lemma mem_symbolsOf_named {category : Category} {kind : String}
    {names : Place Node → List (Place Node)} (h : tree.WellScoped)
    (hdefinition : (category, kind) ∈ Query.definitionKinds) (hscope : kind ∈ scopeKinds)
    (hpattern : Query.matchesAt category = Query.matchesOf kind names)
    (symbolOf : Place Node → Place Node → Symbol) (hplace : place ∈ (tree.read source).places)
    (hkind : place.kind = kind) (hname : name ∈ names place) :
    symbolOf name place ∈
      symbolsOf kind symbolOf ((Query.captureSet (tree.read source)).named category) := by
  have hnamed : place.datum.isNamed = true := h.isNamed_read hplace (hkind ▸ hscope)
  have hfound : (⟨0, place, name⟩ : Match) ∈ Query.allMatches category (tree.read source) := by
    refine Query.mem_allMatches_iff.2 ⟨place, hplace, ?_⟩
    rw [hpattern]
    exact Query.mem_matchesOf_iff.2 ⟨Place.isA_iff.2 ⟨hnamed, hkind⟩, name, hname, rfl⟩
  rw [symbolsOf_named h.noNestedDefinition source hdefinition]
  exact List.mem_map.2 ⟨_, (Query.capturedMatches_perm _ _).mem_iff.2 hfound, rfl⟩

/-- A namespace with a name is one of the file. -/
lemma namespaceOf_mem (h : tree.WellScoped) (hplace : place ∈ (tree.read source).places)
    (hkind : place.kind = "namespace_definition") (hname : name ∈ place.inField "name") :
    namespaceOf name place ∈ (extractSource filePath tree source).namespaces :=
  mem_symbolsOf_named h (by decide) (by decide) Query.matchesAt_namespaces namespaceOf hplace hkind
    hname

/-- A class with a name is one of the file. -/
lemma classOf_mem (h : tree.WellScoped) (hplace : place ∈ (tree.read source).places)
    (hkind : place.kind = "class_specifier") (hname : name ∈ Query.typeNames place) :
    classOf name place ∈ (extractSource filePath tree source).classes :=
  mem_symbolsOf_named h (by decide) (by decide) rfl classOf hplace hkind hname

/-- A struct with a name is one of the file. -/
lemma structOf_mem (h : tree.WellScoped) (hplace : place ∈ (tree.read source).places)
    (hkind : place.kind = "struct_specifier") (hname : name ∈ Query.typeNames place) :
    structOf name place ∈ (extractSource filePath tree source).structs :=
  mem_symbolsOf_named h (by decide) (by decide) rfl structOf hplace hkind hname

/-- A node that opens a scope of a name is declared under this name. -/
lemma exists_declared_of_scopeName? (h : tree.WellScoped)
    (hplace : place ∈ (tree.read source).places) (hscope : scopeName? place.tree = some scope) :
    let symbols := extractSource filePath tree source
    ∃ outer ∈ symbols.namespaces ++ symbols.classes ++ symbols.structs, outer.name = scope ∧
      outer.Spans place := by
  intro symbols
  obtain ⟨child, hfirst, htext⟩ := Option.map_eq_some_iff.1 hscope
  obtain ⟨hchild, hkind⟩ := Tree.of_firstChild?_eq_some hfirst
  have hnames : NamesScope child.kind place.kind := mem_scopeNameKinds_iff.1 hkind
  -- the child is a named one in the role of the name, which is what the patterns ask for
  have hrole : (⟨child, place.tree :: place.ancestors⟩ : Place Node) ∈ place.inField "name" :=
    h.mem_inField hplace (List.mem_map_of_mem hchild) hnames
  rcases hnames with ⟨hnamespace, -⟩ | ⟨htype, hname⟩
  · have hkinds : scopeNameKinds place.tree.kind = namespaceNameKinds := if_pos hnamespace
    refine ⟨_, List.mem_append_left _ (List.mem_append_left _
      (namespaceOf_mem h hplace hnamespace hrole)), ?_, rfl, rfl⟩
    rw [namespaceOf, ← hkinds, hfirst]
    exact htext
  · have htypeName := Place.mem_inFieldOf_iff.2 ⟨hrole, List.mem_singleton.2 hname⟩
    rcases htype with hclass | hstruct
    · exact ⟨_, List.mem_append_left _ (List.mem_append_right _
        (classOf_mem h hplace hclass htypeName)), htext, rfl, rfl⟩
    · exact ⟨_, List.mem_append_right _ (structOf_mem h hplace hstruct htypeName), htext, rfl, rfl⟩

/-! ## The scope of a declaration -/

/-- The nearest named scope around a definition is declared in the file, with lines that hold those of
the definition. -/
lemma hasScopeAround_of_enclosingScope? (h : tree.WellScoped)
    (hplace : place ∈ (tree.read source).places) (hscope : enclosingScope? place = some scope)
    {symbol : Symbol} (hspans : symbol.Spans place) :
    (extractSource filePath tree source).HasScopeAround scope symbol := by
  obtain ⟨ancestor, hancestor, hname⟩ := List.exists_of_findSome?_eq_some hscope
  obtain ⟨above, habove, hstart, hend⟩ := h.exists_place_of_mem_ancestors hplace hancestor
  obtain ⟨outer, houter, houtername, hlines⟩ := exists_declared_of_scopeName? h habove hname
  refine ⟨outer, houter, houtername, ?_, ?_⟩
  · rw [hlines.startLine_eq, hspans.startLine_eq]
    exact hstart
  · rw [hlines.endLine_eq, hspans.endLine_eq]
    exact hend

/-- Where no named scope is found around a definition, no node above it opens one. -/
lemma enclosingScope?_eq_none_iff :
    enclosingScope? place = none ↔ ∀ ancestor ∈ place.ancestors, ¬ ancestor.OpensNamedScope := by
  have hnone : ∀ opens : Tree Node, scopeName? opens = none ↔ ¬ opens.OpensNamedScope := by
    intro opens
    rw [scopeName?, Option.map_eq_none_iff, Tree.firstChild?, List.find?_eq_none,
      Tree.OpensNamedScope]
    simp only [List.contains_iff_mem, mem_scopeNameKinds_iff, not_exists, not_and]
  rw [enclosingScope?, List.findSome?_eq_none_iff]
  simp only [hnone]

/-- The qualifier of a name is what stands before the last `::`, without the white space around it. -/
lemma hasQualifier_of_qualifier? (h : qualifier? name = some scope) :
    name.HasQualifier (Text.IsTrimmed Text.isBlank) scope := by
  unfold qualifier? at h
  split at h
  · rename_i qualified hparent
    split at h
    · rename_i hkind
      obtain ⟨htrim, -⟩ := Option.filter_eq_some_iff.1 h
      obtain ⟨before, hbefore, rfl⟩ := Option.map_eq_some_iff.1 htrim
      exact ⟨qualified, before, hparent, hkind, Text.isBeforeLastColons_of_eq_some hbefore,
        Text.isTrimmed_trimBoth Text.isBlank before⟩
    · exact absurd h (by simp)
  · exact absurd h (by simp)

/-- The scope of the function of a match is accounted for. -/
lemma accountsForScope_functionOf (h : tree.WellScoped) {found : Match}
    (hfound : found ∈ Query.allMatches .functions (tree.read source)) :
    (extractSource filePath tree source).AccountsForScope (Text.IsTrimmed Text.isBlank)
      (functionOf found.name found.outer) found := by
  intro scope hscope
  have heither : (enclosingScope? found.outer).or (qualifier? found.name) = some scope := hscope
  rcases Option.or_eq_some_iff.1 heither with haround | ⟨hnone, hqualifier⟩
  · exact Or.inl (hasScopeAround_of_enclosingScope? h (Query.outer_mem_places hfound) haround
      ⟨rfl, rfl⟩)
  · exact Or.inr ⟨enclosingScope?_eq_none_iff.1 hnone, hasQualifier_of_qualifier? hqualifier⟩

/-- **Where scopes come from.**  In a tree as grammars make them, the scope of a function or class is the
name of a namespace, class or struct of the same file whose lines hold those of the function or class;
or it is that of a function with no named namespace, class or struct around it, and then it is what
stands before the last `::` of the qualified name in which the captured name stands, without the white
space around it. -/
theorem extractSource_scopes (filePath : String) {tree : SyntaxTree} (h : tree.WellScoped)
    (source : ByteArray) :
    let symbols := extractSource filePath tree source
    List.Forall₂
      (fun symbol found => symbol.Declares found ∧
        symbols.AccountsForScope (Text.IsTrimmed Text.isBlank) symbol found)
      symbols.functions (Query.capturedMatches .functions (tree.read source)) ∧
    ∀ symbol ∈ symbols.classes, ∀ scope, symbol.scope = some scope →
      symbols.HasScopeAround scope symbol := by
  intro symbols
  constructor
  · exact forall₂_symbolsOf_named h.noNestedDefinition source (by decide) fun found hfound =>
      ⟨⟨⟨rfl, rfl⟩, rfl⟩, accountsForScope_functionOf h hfound⟩
  · intro symbol hsymbol scope hscope
    have hclasses : symbols.classes = (Query.capturedMatches .classes (tree.read source)).map
        fun found => classOf found.name found.outer :=
      symbolsOf_named h.noNestedDefinition source (by decide) classOf
    rw [hclasses] at hsymbol
    obtain ⟨found, hfound, rfl⟩ := List.mem_map.1 hsymbol
    have hmatch := (Query.capturedMatches_perm _ _).mem_iff.1 hfound
    exact hasScopeAround_of_enclosingScope? h (Query.outer_mem_places hmatch) hscope ⟨rfl, rfl⟩

/-- A class in a namespace, with a function of its own, and a function that is defined outside of
them. -/
def membersText : String :=
  "namespace n \x7b\nclass C \x7b void m() \x7b\x7d \x7d;\n\x7d\nvoid C ::k() \x7b\x7d\n"

/-- The tree of `membersText`, less the nodes that no pattern looks at. -/
def membersTree : SyntaxTree :=
  .construct "translation_unit" none (0, 57) (1, 5)
    [.construct "namespace_definition" none (0, 40) (1, 3)
      [.construct "namespace_identifier" (some "name") (10, 11) (1, 1) [],
        .construct "declaration_list" (some "body") (12, 40) (1, 3)
          [.construct "class_specifier" none (14, 37) (2, 2)
            [.construct "type_identifier" (some "name") (20, 21) (2, 2) [],
              .construct "field_declaration_list" (some "body") (22, 37) (2, 2)
                [.construct "function_definition" none (24, 35) (2, 2)
                  [.construct "function_declarator" (some "declarator") (29, 32) (2, 2)
                    [.construct "field_identifier" (some "declarator") (29, 30) (2, 2) []]]]]]],
      .construct "function_definition" none (41, 56) (4, 4)
        [.construct "function_declarator" (some "declarator") (46, 53) (4, 4)
          [.construct "qualified_identifier" (some "declarator") (46, 51) (4, 4)
            [.construct "namespace_identifier" (some "scope") (46, 47) (4, 4) [],
              .construct "identifier" (some "name") (50, 51) (4, 4) []]]]]

/-- The class has the namespace for its scope, and both functions have the class, one of them because it
stands in the class and the other because its name says so. -/
theorem extractSource_scopes_members :
    membersTree.WellScoped ∧
    ((extractSource "c.cpp" membersTree membersText.toUTF8).classes.map Symbol.scope = [some "n"] ∧
      ((extractSource "c.cpp" membersTree membersText.toUTF8).functions.map fun symbol =>
        (symbol.name, symbol.scope)) = [("m", some "C"), ("k", some "C")]) ∧
    List.Forall₂
      (fun symbol found => symbol.Declares found ∧
        (extractSource "c.cpp" membersTree membersText.toUTF8).AccountsForScope
          (Text.IsTrimmed Text.isBlank) symbol found)
      (extractSource "c.cpp" membersTree membersText.toUTF8).functions
      (Query.capturedMatches .functions (membersTree.read membersText.toUTF8)) := by
  have h : membersTree.WellScoped := by
    refine ⟨by decide, by decide, ?_, by decide⟩
    unfold SyntaxTree.NoNestedDefinition
    decide
  exact ⟨h, ⟨by decide +kernel, by decide +kernel⟩,
    (extractSource_scopes "c.cpp" h membersText.toUTF8).1⟩

/-- A function with white space between its qualifier and the `::` after it. -/
def spacedText : String :=
  "void  A  ::  m2() \x7b\x7d\n"

/-- The tree of `spacedText`, less the tokens. -/
def spacedTree : SyntaxTree :=
  .construct "translation_unit" none (0, 21) (1, 2)
    [.construct "function_definition" none (0, 20) (1, 1)
      [.construct "primitive_type" (some "type") (0, 4) (1, 1) [],
        .construct "function_declarator" (some "declarator") (6, 17) (1, 1)
          [.construct "qualified_identifier" (some "declarator") (6, 15) (1, 1)
            [.construct "namespace_identifier" (some "scope") (6, 7) (1, 1) [],
              .construct "identifier" (some "name") (13, 15) (1, 1) []],
            .construct "parameter_list" (some "parameters") (15, 17) (1, 1) []],
        .construct "compound_statement" (some "body") (18, 20) (1, 1) []]]

/-- The qualifier is not what stands before the last `::` as it is written: `A`, with two blanks after
it, gives the scope `A`. -/
theorem not_accountsForScope_verbatim :
    spacedTree.WellScoped ∧
    ¬ List.Forall₂
      (fun symbol found => symbol.Declares found ∧
        (extractSource "x.cpp" spacedTree spacedText.toUTF8).AccountsForScope Eq symbol found)
      (extractSource "x.cpp" spacedTree spacedText.toUTF8).functions
      (Query.capturedMatches .functions (spacedTree.read spacedText.toUTF8)) := by
  have h : spacedTree.WellScoped := by
    refine ⟨by decide, by decide, ?_, by decide⟩
    unfold SyntaxTree.NoNestedDefinition
    decide
  refine ⟨h, fun hall => ?_⟩
  have hscopes : (extractSource "x.cpp" spacedTree spacedText.toUTF8).functions.map Symbol.scope =
      [some "A"] := by decide +kernel
  have hwritten : ((Query.capturedMatches .functions (spacedTree.read spacedText.toUTF8)).map
      fun found => found.name.parent?.map Place.text) = [some "A  ::  m2"] := by decide +kernel
  have hdeclared : (extractSource "x.cpp" spacedTree spacedText.toUTF8).namespaces ++
      (extractSource "x.cpp" spacedTree spacedText.toUTF8).classes ++
        (extractSource "x.cpp" spacedTree spacedText.toUTF8).structs = [] := by decide +kernel
  obtain ⟨symbol, hsymbol, hscope⟩ := List.map_eq_singleton_iff.1 hscopes
  obtain ⟨found, hfound, htext⟩ := List.map_eq_singleton_iff.1 hwritten
  rw [hsymbol, hfound, List.forall₂_cons] at hall
  rcases hall.1.2 "A" hscope with ⟨outer, houter, -⟩ |
    ⟨-, qualified, before, hparent, -, ⟨after, hcolons, -⟩, rfl⟩
  · rw [hdeclared] at houter
    exact List.not_mem_nil houter
  · -- the character after `A` is a blank and no colon
    rw [hparent, Option.map_some, Option.some.injEq] at htext
    rw [htext] at hcolons
    have hsecond : some ' ' = some ':' := congrArg (fun l : List Char => l[1]?) hcolons
    exact absurd hsecond (by decide)

end Extraction

end CppDeps
