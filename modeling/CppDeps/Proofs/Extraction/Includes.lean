import CppDeps.Proofs.ByteOrder
import CppDeps.Proofs.Extraction.Definitions
import CppDeps.Proofs.Extraction.Texts
import CppDeps.Proofs.Text

/-!
# The include directives of a parsed file

Each path token of an include directive gives one include.  Its path is what stands between the quotes or
brackets of the token, and its line is that of the token, whatever else the directive holds.  Whether it
is the header of a system is not read from the token but from the whole directive: one whose bytes can be
decoded, with a `<` among them (`Extraction.extractSource_includes`).  Where the only `<` is that of the
token this tells the two kinds of token apart, but a comment behind the path may hold a `<` of its own,
or bytes that cannot be decoded.
-/

namespace CppDeps

/-! ## The bytes of a node -/

namespace Place

/-- The bytes that a node spans are valid UTF-8. -/
def IsDecodable (source : ByteArray) (place : Place Node) : Prop :=
  (source.extract place.datum.startByte place.datum.endByte).IsValidUTF8

/-- One of the bytes that a node spans. -/
def HasByte (source : ByteArray) (place : Place Node) (byte : UInt8) : Prop :=
  ∃ i, place.datum.startByte ≤ i ∧ i < place.datum.endByte ∧ source[i]? = some byte

end Place

/-- What kind and text a token has that spells a path: it is a string with the path between its quotes, or
names a system header with the path between its brackets, and the path has none of these characters
itself. -/
def SpellsPath (kind text path : String) : Prop :=
  (∀ c ∈ path.toList, c ≠ '"' ∧ c ≠ '<' ∧ c ≠ '>') ∧
    ((kind = "string_literal" ∧ text.toList = '"' :: (path.toList ++ ['"'])) ∨
      (kind = "system_lib_string" ∧ text.toList = '<' :: (path.toList ++ ['>'])))

instance (kind text path : String) : Decidable (SpellsPath kind text path) :=
  haveI : Decidable (∀ c ∈ path.toList, c ≠ '"' ∧ c ≠ '<' ∧ c ≠ '>') := List.decidableBAll _ _
  inferInstanceAs (Decidable (_ ∧ _))

/-- The token spells a path. -/
def Place.Spells (token : Place Node) (path : String) : Prop :=
  SpellsPath token.kind token.text path

/-- An include directive whose path alone tells of what kind it is: its bytes can be decoded, they hold
those of the path, and each `<` among them lies in the path. -/
structure Match.IsBare (source : ByteArray) (found : Match) : Prop where
  isDecodable : found.outer.IsDecodable source
  startByte_le : found.outer.datum.startByte ≤ found.name.datum.startByte
  endByte_le : found.name.datum.endByte ≤ found.outer.datum.endByte
  bracket_in_name : ∀ i, found.outer.datum.startByte ≤ i → i < found.outer.datum.endByte →
    source[i]? = some '<'.toUInt8 → found.name.datum.startByte ≤ i ∧ i < found.name.datum.endByte

/-- An include is what a match of a directive says: it has the path that the token spells and the line
of the token, and is that of a system header just if the bytes of the directive can be decoded and have a
`<` among them. -/
structure Include.Records (source : ByteArray) (directive : Include) (found : Match) : Prop where
  path_eq : ∀ path, found.name.Spells path → directive.path = path
  line_eq : directive.line = found.name.datum.startLine
  isSystem_iff : directive.isSystem = true ↔
    found.outer.IsDecodable source ∧ found.outer.HasByte source '<'.toUInt8

namespace Extraction

variable {source : ByteArray} {tree : SyntaxTree} {place token : Place Node} {path : String}
  {found : Match}

/-- The text between two bytes has an ASCII character just if it can be decoded and has its byte. -/
lemma mem_textBetween_iff {c : Char} (hc : c.val.toNat < 128) (startByte endByte : ℕ) :
    c ∈ (textBetween source startByte endByte).toList ↔
      (source.extract startByte endByte).IsValidUTF8 ∧
        ∃ i, startByte ≤ i ∧ i < endByte ∧ source[i]? = some c.toUInt8 := by
  unfold textBetween String.fromUTF8?
  split
  · rename_i hvalid
    rw [Option.getD_some, and_iff_right hvalid, ← Text.mem_bytes_iff hc, Text.bytes]
    show c.toUInt8 ∈ (source.extract startByte endByte).data.toList ↔ _
    rw [Array.mem_toList_iff, Array.mem_iff_getElem?]
    simp only [getElem?_data_extract, Option.ite_none_right_eq_some]
    constructor
    · rintro ⟨i, hend, hbyte⟩
      exact ⟨startByte + i, Nat.le_add_right startByte i, hend, hbyte⟩
    · rintro ⟨i, hstart, hend, hbyte⟩
      obtain ⟨k, rfl⟩ := Nat.exists_eq_add_of_le hstart
      exact ⟨k, hend, hbyte⟩
  · rename_i hvalid
    exact iff_of_false (by simp) fun h => hvalid h.1

/-- The text of a node is cut out of the file. -/
lemma text_of_mem_places (h : place ∈ (tree.read source).places) :
    place.text = textBetween source place.datum.startByte place.datum.endByte := by
  obtain ⟨place', -, rfl⟩ := List.mem_map.1 (Tree.places_map _ tree ▸ h)
  show (place'.map (Shape.read source)).datum.text = _
  rw [Place.datum_map, Shape.read]

/-- The text of a node has an ASCII character just if the node can be decoded and has its byte. -/
lemma mem_text_iff {c : Char} (hc : c.val.toNat < 128) (h : place ∈ (tree.read source).places) :
    c ∈ place.text.toList ↔ place.IsDecodable source ∧ place.HasByte source c.toUInt8 := by
  rw [text_of_mem_places h]
  exact mem_textBetween_iff hc _ _

/-! ## One include -/

/-- The path of an include is what its token spells. -/
lemma path_includeOf (h : token.Spells path) : (includeOf token).path = path := by
  obtain ⟨hpath, htext⟩ := h
  have hkept : ∀ c ∈ path.toList, (c == '"' || c == '<' || c == '>') = false := by
    intro c hc
    obtain ⟨hquote, hopen, hclose⟩ := hpath c hc
    simp only [hquote, hopen, hclose, Bool.or_eq_false_iff, beq_eq_false_iff_ne, ne_eq,
      not_false_eq_true, and_self]
  rw [← String.ofList_toList (s := path)]
  rcases htext with ⟨-, htext⟩ | ⟨-, htext⟩
  · exact Text.trimBoth_eq_of_append ['"'] htext (by simp) hkept
  · exact Text.trimBoth_eq_of_append ['<'] htext (by simp) hkept

/-- A token that spells a path has a `<` just if it is the name of a system header. -/
lemma mem_text_iff_of_spells (h : token.Spells path) :
    '<' ∈ token.text.toList ↔ token.kind = "system_lib_string" := by
  obtain ⟨hpath, ⟨hkind, htext⟩ | ⟨hkind, htext⟩⟩ := h
  · refine iff_of_false (fun hmem => ?_) (by rw [hkind]; decide)
    rw [htext, List.mem_cons, List.mem_append, List.mem_singleton] at hmem
    rcases hmem with hquote | hmem | hquote
    · exact absurd hquote (by decide)
    · exact (hpath '<' hmem).2.1 rfl
    · exact absurd hquote (by decide)
  · refine iff_of_true ?_ hkind
    rw [htext]
    exact List.mem_cons_self

/-- A token that spells a path can be decoded, since its text is not empty. -/
lemma isDecodable_of_spells (h : token ∈ (tree.read source).places) (hspells : token.Spells path) :
    token.IsDecodable source := by
  rcases hspells.2 with ⟨-, htext⟩ | ⟨-, htext⟩
  · have hquote : '"' ∈ token.text.toList := htext ▸ List.mem_cons_self
    exact ((mem_text_iff (by decide) h).1 hquote).1
  · have hopen : '<' ∈ token.text.toList := htext ▸ List.mem_cons_self
    exact ((mem_text_iff (by decide) h).1 hopen).1

/-- A match of an include directive has one of its path tokens for the name. -/
lemma of_mem_matchesAt_includes (h : found ∈ Query.matchesAt .includes place) :
    found.outer = place ∧ found.name ∈ place.children := by
  obtain ⟨-, name, hname, rfl⟩ := Query.mem_matchesOf_iff.1 h
  exact ⟨rfl, (Place.mem_inField_iff.1 (Place.mem_inFieldOf_iff.1 hname).1).1⟩

/-- What is made of the name of a match says what the match does. -/
lemma records_includeOf (h : found ∈ Query.allMatches .includes (tree.read source)) :
    (includeOf found.name).Records source found := by
  obtain ⟨place, hplace, hfound⟩ := Query.mem_allMatches_iff.1 h
  obtain ⟨rfl, hname⟩ := of_mem_matchesAt_includes hfound
  have hparent : found.name.parent? = some found.outer := by
    rw [Place.parent?, Place.ancestors_of_mem_children hname]
  have hbracket : '<'.val.toNat < 128 := by decide
  refine ⟨fun path hpath => path_includeOf hpath, rfl, ?_⟩
  rw [includeOf, hparent, ← mem_text_iff hbracket hplace]
  exact Text.occursIn_singleton_iff

/-- Where the path alone tells, the include is that of a system header just if the token names one. -/
lemma isSystem_iff_of_isBare (h : found ∈ Query.allMatches .includes (tree.read source))
    (hbare : found.IsBare source) (hspells : found.name.Spells path) {directive : Include}
    (hrecords : directive.Records source found) :
    directive.isSystem = true ↔ found.name.kind = "system_lib_string" := by
  obtain ⟨place, hplace, hfound⟩ := Query.mem_allMatches_iff.1 h
  obtain ⟨rfl, hname⟩ := of_mem_matchesAt_includes hfound
  have hbracket : '<'.val.toNat < 128 := by decide
  have htoken := mem_text_iff hbracket (Tree.mem_places_of_mem_children hplace hname)
  rw [hrecords.isSystem_iff, and_iff_right hbare.isDecodable, ← mem_text_iff_of_spells hspells]
  constructor
  · rintro ⟨i, hstart, hend, hbyte⟩
    obtain ⟨hstart', hend'⟩ := hbare.bracket_in_name i hstart hend hbyte
    exact htoken.2 ⟨isDecodable_of_spells (Tree.mem_places_of_mem_children hplace hname) hspells, i,
      hstart', hend', hbyte⟩
  · intro hmem
    obtain ⟨-, i, hstart, hend, hbyte⟩ := htoken.1 hmem
    exact ⟨i, hbare.startByte_le.trans hstart, hend.trans_le hbare.endByte_le, hbyte⟩

/-! ## All includes -/

/-- A directive with one token in the role of its path, which spells one, has one match. -/
lemma matchesAt_includes_of_spells (hdirective : place.isA "preproc_include" = true)
    (htoken : place.inField "path" = [token]) (hspells : token.Spells path) :
    Query.matchesAt .includes place = [⟨0, place, token⟩] := by
  have hkind : ["string_literal", "system_lib_string"].contains token.kind = true := by
    rcases hspells.2 with ⟨hkind, -⟩ | ⟨hkind, -⟩ <;> rw [hkind] <;> decide
  have hpaths : Query.includePaths place = [token] := by
    rw [Query.includePaths, Place.inFieldOf, htoken, List.filter_cons, if_pos hkind, List.filter_nil]
  show Query.matchesOf "preproc_include" Query.includePaths place = _
  rw [Query.matchesOf, if_pos hdirective, hpaths]
  rfl

/-- **The includes of a parsed file** correspond to the matches of include directives, one to one and in
the order of their captured paths.  A directive with one token in the role of its path, which spells a
path, has one match, that token.  Each include has the path that the token spells and the line of the
token, and is that of a system header just if the bytes of the directive can be decoded and have a `<`
among them.  Where no such byte lies outside of the token, this is so just if the token names a system
header. -/
theorem extractSource_includes (filePath : String) (tree : SyntaxTree) (source : ByteArray) :
    let parsed := tree.read source
    let directives := Query.capturedMatches .includes parsed
    directives.Perm (parsed.places.flatMap (Query.matchesAt .includes)) ∧
    (∀ place ∈ parsed.places, place.isA "preproc_include" = true →
      ∀ token path, place.inField "path" = [token] → token.Spells path →
        Query.matchesAt .includes place = [⟨0, place, token⟩]) ∧
    List.Forall₂
      (fun directive found => directive.Records source found ∧
        (found.IsBare source → ∀ path, found.name.Spells path →
          (directive.isSystem = true ↔ found.name.kind = "system_lib_string")))
      (extractSource filePath tree source).includes directives := by
  intro parsed directives
  have hincludes : (extractSource filePath tree source).includes =
      directives.map fun found => includeOf found.name := by
    show ((Query.captureSet parsed).named .includes).map includeOf = _
    rw [Query.named_captureSet, List.map_map]
    rfl
  refine ⟨Query.capturedMatches_perm .includes parsed, fun place _ hdirective token path htoken
    hspells => matchesAt_includes_of_spells hdirective htoken hspells, ?_⟩
  rw [hincludes, List.forall₂_map_left_iff, List.forall₂_same]
  intro found hcaptured
  have hfound : found ∈ Query.allMatches .includes parsed :=
    (Query.capturedMatches_perm _ _).mem_iff.1 hcaptured
  have hrecords : (includeOf found.name).Records source found := records_includeOf hfound
  exact ⟨hrecords, fun hbare path hspells => isSystem_iff_of_isBare hfound hbare hspells hrecords⟩

/-- The tree of a file of one line, an include directive, less the nodes that no pattern looks at. -/
def directiveTree (kind : String) (token directive : Nat × Nat) : SyntaxTree :=
  .construct "translation_unit" none directive (1, 2)
    [.construct "preproc_include" none directive (1, 2)
      [.construct kind (some "path") token (1, 1) []]]

/-- The bytes of a directive for a system header. -/
def vectorText : ByteArray :=
  "#include <vector>\n".toUTF8

/-- The tree of `vectorText`. -/
def vectorTree : SyntaxTree :=
  directiveTree "system_lib_string" (9, 17) (0, 18)

/-- The directive stands alone on its line, and its token tells of what kind it is. -/
theorem extractSource_includes_vector :
    ∃ found, Query.capturedMatches .includes (vectorTree.read vectorText) = [found] ∧
      found.IsBare vectorText ∧ found.name.Spells "vector" ∧
      ∃ directive, (extractSource "a.cpp" vectorTree vectorText).includes = [directive] ∧
        directive.path = "vector" ∧ directive.line = 1 ∧ directive.isSystem = true := by
  have hnodes : ((Query.capturedMatches .includes (vectorTree.read vectorText)).map fun found =>
      (found.outer.datum.toShape, found.name.datum.toShape, found.name.text)) =
        [(⟨"preproc_include", none, true, 0, 18, 1, 2⟩,
          ⟨"system_lib_string", some "path", true, 9, 17, 1, 1⟩, "<vector>")] := by decide +kernel
  obtain ⟨found, hfound, hshapes⟩ := List.map_eq_singleton_iff.1 hnodes
  simp only [Prod.mk.injEq] at hshapes
  obtain ⟨houter, hname, htext⟩ := hshapes
  have hspells : found.name.Spells "vector" := by
    have hkind : found.name.kind = "system_lib_string" := congrArg Shape.kind hname
    rw [Place.Spells, hkind, htext]
    decide
  have hbare : found.IsBare vectorText := by
    refine ⟨?_, ?_, ?_, ?_⟩
    · rw [Place.IsDecodable, houter]
      decide +kernel
    · rw [houter, hname]
      decide
    · rw [houter, hname]
      decide
    · rw [houter, hname]
      intro i _
      revert i
      decide +kernel
  have hall := (extractSource_includes "a.cpp" vectorTree vectorText).2.2
  rw [hfound, List.forall₂_cons_right_iff] at hall
  obtain ⟨directive, others, ⟨hrecords, hsystem⟩, hothers, hdirective⟩ := hall
  rw [List.forall₂_nil_right_iff.1 hothers] at hdirective
  refine ⟨found, hfound, hbare, hspells, directive, hdirective, hrecords.path_eq _ hspells, ?_, ?_⟩
  · rw [hrecords.line_eq, hname]
  · exact (hsystem hbare _ hspells).2 (congrArg Shape.kind hname)

/-- Each include of a file is that of a system header just if its token names one. -/
def SystemFollowsToken (tree : SyntaxTree) (source : ByteArray) : Prop :=
  List.Forall₂
    (fun directive found => ∀ path, found.name.Spells path →
      (directive.isSystem = true ↔ found.name.kind = "system_lib_string"))
    (extractSource "a.cpp" tree source).includes
    (Query.capturedMatches .includes (tree.read source))

/-- A file with one include may tell against it. -/
lemma not_systemFollowsToken (isSystem : Bool) (kind text path : String)
    (hincludes : (extractSource "a.cpp" tree source).includes.map Include.isSystem = [isSystem])
    (htoken : ((Query.capturedMatches .includes (tree.read source)).map fun found =>
      (found.name.kind, found.name.text)) = [(kind, text)])
    (hspells : SpellsPath kind text path) (hne : ¬ (isSystem = true ↔ kind = "system_lib_string")) :
    ¬ SystemFollowsToken tree source := by
  intro hall
  obtain ⟨directive, hdirective, rfl⟩ := List.map_eq_singleton_iff.1 hincludes
  obtain ⟨found, hfound, htoken⟩ := List.map_eq_singleton_iff.1 htoken
  obtain ⟨rfl, rfl⟩ := Prod.mk.inj htoken
  rw [SystemFollowsToken, hdirective, hfound, List.forall₂_cons] at hall
  exact hne (hall.1 path hspells)

/-- The token does not tell of what kind the header is: not if a comment behind it holds a `<`, and not if
it holds a byte that cannot be decoded. -/
theorem extractSource_includes_ne :
    ¬ SystemFollowsToken (directiveTree "string_literal" (9, 14) (0, 31))
        "#include \"a.h\" // see <vector>\n".toUTF8 ∧
    ¬ SystemFollowsToken (directiveTree "system_lib_string" (9, 14) (0, 20))
        (("#include <a.h> // ".toUTF8.push 255).push 10) := by
  constructor
  · exact not_systemFollowsToken true "string_literal" "\"a.h\"" "a.h" (by decide +kernel)
      (by decide +kernel) (by decide) (by decide)
  · exact not_systemFollowsToken false "system_lib_string" "<a.h>" "a.h" (by decide +kernel)
      (by decide +kernel) (by decide) (by decide)

end Extraction

end CppDeps
