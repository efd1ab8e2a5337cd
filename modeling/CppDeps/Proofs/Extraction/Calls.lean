import CppDeps.Proofs.ByteOrder
import CppDeps.Proofs.Capture.Order
import CppDeps.Proofs.Extraction.Definitions

/-!
# The names that a file calls

A call names what it calls in its `function:` child: a plain name, the last name of a qualified one, or
the member that is taken of an object (`Place.IsCallee`).  Calls stand in each other, as arguments and
as what is called, so their captures mix; but every match has its name captured once, and the called
names are a set.  So they are the texts of just these nodes, wherever in the tree the call stands
(`Extraction.extractSource_calledNames`).
-/

namespace CppDeps

namespace Place

variable {call callee : Place Node}

/-- A named child of a kind in a role. -/
def HasPart (place : Place Node) (field kind : String) (part : Place Node) : Prop :=
  part ∈ place.children ∧ part.datum.isNamed = true ∧ part.datum.field = some field ∧
    part.kind = kind

/-- The node by which a call names what it calls. -/
inductive IsCallee (call : Place Node) : Place Node → Prop
  | plain {name : Place Node} (hname : call.HasPart "function" "identifier" name) :
      IsCallee call name
  | qualified {path name : Place Node} (hpath : call.HasPart "function" "qualified_identifier" path)
      (hname : path.HasPart "name" "identifier" name) : IsCallee call name
  | ofMember {access name : Place Node} (haccess : call.HasPart "function" "field_expression" access)
      (hname : access.HasPart "field" "field_identifier" name) : IsCallee call name

/-- The children in a role that are of one kind. -/
lemma mem_inFieldOf_singleton_iff {place part : Place Node} {field kind : String} :
    part ∈ place.inFieldOf field [kind] ↔ place.HasPart field kind part := by
  rw [mem_inFieldOf_iff, mem_inField_iff, List.mem_singleton, and_assoc, and_assoc]
  rfl

end Place

namespace Query

variable {call callee : Place Node} {tree : Tree Node}

/-- The pattern finds just the nodes by which a call names what it calls. -/
lemma mem_callees_iff : callee ∈ callees call ↔ call.IsCallee callee := by
  unfold callees
  rw [List.mem_flatMap]
  constructor
  · rintro ⟨child, hchild, hcallee⟩
    have hpart : ∀ kind, child.kind = kind → call.HasPart "function" kind child := by
      intro kind hkind
      obtain ⟨hbelow, hnamed, hfield⟩ := Place.mem_inField_iff.1 hchild
      exact ⟨hbelow, hnamed, hfield, hkind⟩
    split at hcallee
    · rename_i hkind
      rw [List.mem_singleton.1 hcallee]
      exact .plain (hpart _ hkind)
    · split at hcallee
      · rename_i hkind
        exact .qualified (hpart _ hkind) (Place.mem_inFieldOf_singleton_iff.1 hcallee)
      · split at hcallee
        · rename_i hkind
          exact .ofMember (hpart _ hkind) (Place.mem_inFieldOf_singleton_iff.1 hcallee)
        · exact absurd hcallee List.not_mem_nil
  · have hrole : ∀ {kind part}, call.HasPart "function" kind part → part ∈ call.inField "function" :=
      fun h => Place.mem_inField_iff.2 ⟨h.1, h.2.1, h.2.2.1⟩
    intro h
    cases h with
    | plain hname =>
      refine ⟨callee, hrole hname, ?_⟩
      rw [if_pos hname.2.2.2]
      exact List.mem_singleton_self callee
    | @qualified path _ hpath hname =>
      refine ⟨path, hrole hpath, ?_⟩
      rw [hpath.2.2.2]
      exact Place.mem_inFieldOf_singleton_iff.2 hname
    | @ofMember access _ haccess hname =>
      refine ⟨access, hrole haccess, ?_⟩
      rw [haccess.2.2.2]
      exact Place.mem_inFieldOf_singleton_iff.2 hname

/-- The captured names of calls are the nodes by which calls of the tree name what they call. -/
lemma mem_named_callExpressions_iff :
    callee ∈ (captureSet tree).named .callExpressions ↔
      ∃ call ∈ tree.places, call.isA "call_expression" = true ∧ call.IsCallee callee := by
  rw [named_captureSet, List.mem_map]
  constructor
  · rintro ⟨found, hcaptured, rfl⟩
    obtain ⟨call, hcall, hfound⟩ :=
      mem_allMatches_iff.1 ((capturedMatches_perm .callExpressions tree).mem_iff.1 hcaptured)
    obtain ⟨hkind, name, hname, rfl⟩ := mem_matchesOf_iff.1 hfound
    exact ⟨call, hcall, hkind, mem_callees_iff.1 hname⟩
  · rintro ⟨call, hcall, hkind, hcallee⟩
    have hfound : (⟨0, call, callee⟩ : Match) ∈ matchesAt .callExpressions call :=
      mem_matchesOf_iff.2 ⟨hkind, callee, mem_callees_iff.2 hcallee, rfl⟩
    refine ⟨⟨0, call, callee⟩, ?_, rfl⟩
    exact (capturedMatches_perm .callExpressions tree).mem_iff.2
      (mem_allMatches_iff.2 ⟨call, hcall, hfound⟩)

end Query

namespace Extraction

/-- **The called names of a parsed file** are listed once each, in ascending order of their bytes, and
are just the non-empty texts of the nodes by which calls name what they call.  A call may stand anywhere
in the tree: it is reached from the root by going to a child time and again, whatever nodes lie
between. -/
theorem extractSource_calledNames (filePath : String) (tree : SyntaxTree) (source : ByteArray) :
    let parsed := tree.read source
    let called := (extractSource filePath tree source).calledNames.toList
    called.Pairwise (fun a b => Text.bytes a < Text.bytes b) ∧
    ∀ name, name ∈ called ↔ name ≠ "" ∧ ∃ call callee,
      Relation.ReflTransGen Place.HasChild ⟨parsed, []⟩ call ∧
        call.isA "call_expression" = true ∧ call.IsCallee callee ∧ callee.text = name := by
  intro parsed called
  refine ⟨(extractSource filePath tree source).calledNames.ascending.imp Text.bytes_lt_bytes,
    fun name => ?_⟩
  have hcalled : name ∈ called ↔ name ∈
      (((Query.captureSet parsed).named .callExpressions).map Place.text).filter
        fun name => !name.isEmpty := NameSet.mem_ofList
  have hnonempty : (!name.isEmpty) = true ↔ name ≠ "" := by
    rw [Bool.not_eq_true', ← Bool.not_eq_true, String.isEmpty_iff]
  rw [hcalled, List.mem_filter, hnonempty, and_comm, List.mem_map]
  refine and_congr_right fun _ => ?_
  simp only [Query.mem_named_callExpressions_iff, ← Tree.mem_places_iff]
  constructor
  · rintro ⟨callee, ⟨call, hcall, hkind, hcallee⟩, htext⟩
    exact ⟨call, callee, hcall, hkind, hcallee, htext⟩
  · rintro ⟨call, callee, hcall, hkind, hcallee, htext⟩
    exact ⟨callee, ⟨call, hcall, hkind, hcallee⟩, htext⟩

/-- One call takes a member of what another gives, and has a third for its argument. -/
example :
    let call (field : Option String) (bytes name : ℕ × ℕ) : SyntaxTree :=
      .construct "call_expression" field bytes (1, 1)
        [.construct "identifier" (some "function") name (1, 1) []]
    let tree : SyntaxTree := .construct "call_expression" none (0, 10) (1, 1)
      [.construct "field_expression" (some "function") (0, 5) (1, 1)
        [call (some "argument") (0, 3) (0, 1),
          .construct "field_identifier" (some "field") (4, 5) (1, 1) []],
        .construct "argument_list" (some "arguments") (5, 10) (1, 1) [call none (6, 9) (6, 7)]]
    (extractSource "a.cpp" tree "c().b(a())".toUTF8).calledNames.toList = ["a", "b", "c"] := by
  decide +kernel

end Extraction

end CppDeps
