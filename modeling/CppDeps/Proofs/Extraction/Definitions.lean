import CppDeps.Extraction
import CppDeps.Proofs.Capture.Order
import CppDeps.Proofs.Query.Matches
import Mathlib.Data.List.Forall2

/-!
# The declarations of a parsed file

A pattern goes down from a definition to the name, and only the name is handed on; the definition is
looked for again from there upwards.  Since that search ends at the definition from which the pattern
started, the declarations of a file are those of the matches, one for each and in the order of their
captured names: no captured name is passed over, and none is credited to another definition.
-/

namespace CppDeps

/-- The parameters written in a function declarator: the texts of those in its lists of parameters,
optional ones included. -/
def Place.writtenParams (declarator : Place Node) : List String :=
  let lists := declarator.children.filter fun child => child.kind = "parameter_list"
  ((lists.flatMap Place.children).filter fun child =>
    child.kind ∈ ["parameter_declaration", "optional_parameter_declaration"]).map Place.text

namespace Symbol

/-- A declaration spans the lines of a node. -/
structure Spans (symbol : Symbol) (place : Place Node) : Prop where
  startLine_eq : symbol.startLine = place.datum.startLine
  endLine_eq : symbol.endLine = place.datum.endLine

/-- A declaration bears the name of a match and spans the lines of its outer node. -/
structure Declares (symbol : Symbol) (found : Match) : Prop extends symbol.Spans found.outer where
  name_eq : symbol.name = found.name.text

/-- A function has besides the parameters of the one function declarator in which the match has the
name. -/
structure DeclaresFunction (symbol : Symbol) (found : Match) : Prop extends
    symbol.Declares found where
  existsUnique_declarator : ∃! declarator, found.IsDeclarator declarator
  params_eq : ∀ declarator, found.IsDeclarator declarator →
    symbol.params = declarator.writtenParams

end Symbol

/-- A named construct between two bytes, on some lines. -/
def SyntaxTree.construct (kind : String) (field : Option String) (bytes lines : Nat × Nat)
    (children : List SyntaxTree) : SyntaxTree :=
  .node ⟨kind, field, true, bytes.1, bytes.2, lines.1, lines.2⟩ children

namespace Extraction

variable {category : Category} {kind : String} {tree : SyntaxTree}

/-- Where the search upwards from the name of each match ends at its outer node, the declarations are
those of the matches. -/
lemma symbolsOf_map_name {symbolOf : Place Node → Place Node → Symbol} {all : List Match}
    (h : ∀ found ∈ all, found.name.nearestAncestor? kind = some found.outer) :
    symbolsOf kind symbolOf (all.map Match.name) =
      all.map fun found => symbolOf found.name found.outer := by
  rw [symbolsOf, List.filterMap_map, ← List.filterMap_eq_map]
  refine List.filterMap_congr fun found hfound => ?_
  rw [Function.comp_apply, h found hfound]
  rfl

/-- The declarations of a category are those of its matches, in the order of the captured names. -/
lemma symbolsOf_named (hnested : tree.NoNestedDefinition) (source : ByteArray)
    (hkind : (category, kind) ∈ Query.definitionKinds)
    (symbolOf : Place Node → Place Node → Symbol) :
    symbolsOf kind symbolOf ((Query.captureSet (tree.read source)).named category) =
      (Query.capturedMatches category (tree.read source)).map fun found =>
        symbolOf found.name found.outer := by
  rw [Query.named_captureSet]
  refine symbolsOf_map_name fun found hfound => ?_
  exact Query.nearestAncestor?_of_mem_allMatches hnested source hkind
    ((Query.capturedMatches_perm _ _).mem_iff.1 hfound)

/-- Each declaration of a category stands for its match, if the declaration made of any match of the
category does. -/
lemma forall₂_symbolsOf_named {R : Symbol → Match → Prop} (hnested : tree.NoNestedDefinition)
    (source : ByteArray) (hkind : (category, kind) ∈ Query.definitionKinds)
    {symbolOf : Place Node → Place Node → Symbol}
    (hR : ∀ found ∈ Query.allMatches category (tree.read source),
      R (symbolOf found.name found.outer) found) :
    List.Forall₂ R (symbolsOf kind symbolOf ((Query.captureSet (tree.read source)).named category))
      (Query.capturedMatches category (tree.read source)) := by
  rw [symbolsOf_named hnested source hkind, List.forall₂_map_left_iff, List.forall₂_same]
  exact fun found hfound => hR found ((Query.capturedMatches_perm _ _).mem_iff.1 hfound)

/-- The parameters found in a function declarator are those written there. -/
lemma parameters_tree (declarator : Place Node) :
    parameters declarator.tree = declarator.writtenParams := by
  rw [parameters, Place.writtenParams, ← Place.map_tree_children, List.filter_map, List.flatMap_map]
  simp only [← Place.map_tree_children, List.contains_eq_mem]
  rw [← List.map_flatMap, List.filter_map, List.map_map]
  rfl

/-- The function made of a match has its name, lines and parameters. -/
lemma declaresFunction_functionOf {tree : Tree Node} {found : Match}
    (hfound : found ∈ Query.allMatches .functions tree) :
    (functionOf found.name found.outer).DeclaresFunction found := by
  obtain ⟨place, -, hmatch⟩ := Query.mem_allMatches_iff.1 hfound
  refine ⟨⟨⟨rfl, rfl⟩, rfl⟩, Query.existsUnique_isDeclarator hmatch, fun declarator hdeclarator => ?_⟩
  rw [functionOf, Query.nearestAncestor?_of_isDeclarator hdeclarator]
  exact parameters_tree declarator

/-- **What is extracted is what the patterns match.**  Let no definition of a function stand in the role
of the declarator of another.  Then the functions, classes, structs and namespaces of a parsed file
correspond to the matches of their patterns, one to one and in the order of the captured names.  Each
function, class or struct bears the name of its match, each declaration spans the lines of the outer
node of its match, and a function has the parameters of the function declarator of its match.  The
search upwards from the name of a match always ends at its outer node. -/
theorem extractSource_matches (filePath : String) {tree : SyntaxTree}
    (hnested : tree.NoNestedDefinition) (source : ByteArray) :
    let parsed := tree.read source
    let symbols := extractSource filePath tree source
    (∀ category, (Query.capturedMatches category parsed).Perm (Query.allMatches category parsed) ∧
      (Query.captureSet parsed).named category =
        (Query.capturedMatches category parsed).map Match.name) ∧
    List.Forall₂ Symbol.DeclaresFunction symbols.functions
      (Query.capturedMatches .functions parsed) ∧
    List.Forall₂ Symbol.Declares symbols.classes (Query.capturedMatches .classes parsed) ∧
    List.Forall₂ Symbol.Declares symbols.structs (Query.capturedMatches .structs parsed) ∧
    List.Forall₂ (fun symbol found => symbol.Spans found.outer) symbols.namespaces
      (Query.capturedMatches .namespaces parsed) ∧
    ∀ category kind, (category, kind) ∈ Query.definitionKinds →
      ∀ found ∈ Query.allMatches category parsed,
        found.name.nearestAncestor? kind = some found.outer := by
  intro parsed symbols
  refine ⟨fun category => ⟨Query.capturedMatches_perm category parsed,
    Query.named_captureSet category parsed⟩, ?_, ?_, ?_, ?_, fun category kind hkind found hfound =>
      Query.nearestAncestor?_of_mem_allMatches hnested source hkind hfound⟩
  · exact forall₂_symbolsOf_named hnested source (by decide) fun found hfound =>
      declaresFunction_functionOf hfound
  · exact forall₂_symbolsOf_named hnested source (by decide) fun _ _ => ⟨⟨rfl, rfl⟩, rfl⟩
  · exact forall₂_symbolsOf_named hnested source (by decide) fun _ _ => ⟨⟨rfl, rfl⟩, rfl⟩
  · exact forall₂_symbolsOf_named hnested source (by decide) fun _ _ => ⟨rfl, rfl⟩

/-- A function that returns a pointer, with a struct in its body that has a function of its own. -/
def nestedText : String :=
  "int *f(int a) \x7b struct S \x7b void g() \x7b\x7d \x7d; \x7d"

/-- The tree of `nestedText`, less the nodes that no pattern looks at. -/
def nestedTree : SyntaxTree :=
  .construct "function_definition" none (0, 43) (1, 1)
    [.construct "pointer_declarator" (some "declarator") (4, 13) (1, 1)
      [.construct "function_declarator" (some "declarator") (5, 13) (1, 1)
        [.construct "identifier" (some "declarator") (5, 6) (1, 1) [],
          .construct "parameter_list" (some "parameters") (6, 13) (1, 1)
            [.construct "parameter_declaration" none (7, 12) (1, 1) []]]],
      .construct "compound_statement" (some "body") (14, 43) (1, 1)
        [.construct "struct_specifier" none (16, 40) (1, 1)
          [.construct "type_identifier" (some "name") (23, 24) (1, 1) [],
            .construct "field_declaration_list" (some "body") (25, 40) (1, 1)
              [.construct "function_definition" none (27, 38) (1, 1)
                [.construct "function_declarator" (some "declarator") (32, 35) (1, 1)
                  [.construct "field_identifier" (some "declarator") (32, 33) (1, 1) [],
                    .construct "parameter_list" (some "parameters") (33, 35) (1, 1) []]]]]]]

/-- Of two functions, one around the other, each has its own name and parameters. -/
theorem extractSource_matches_nested :
    nestedTree.NoNestedDefinition ∧
    ((extractSource "a.cpp" nestedTree nestedText.toUTF8).functions.map fun symbol =>
      (symbol.name, symbol.params)) = [("f", ["int a"]), ("g", [])] ∧
    (extractSource "a.cpp" nestedTree nestedText.toUTF8).structs.map Symbol.name = ["S"] ∧
    List.Forall₂ Symbol.DeclaresFunction
      (extractSource "a.cpp" nestedTree nestedText.toUTF8).functions
      (Query.capturedMatches .functions (nestedTree.read nestedText.toUTF8)) := by
  have hnested : nestedTree.NoNestedDefinition := by
    unfold SyntaxTree.NoNestedDefinition
    decide
  exact ⟨hnested, by decide +kernel, by decide +kernel,
    (extractSource_matches "a.cpp" hnested nestedText.toUTF8).2.1⟩

end Extraction

end CppDeps
