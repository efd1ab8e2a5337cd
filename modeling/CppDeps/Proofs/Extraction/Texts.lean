import CppDeps.Extraction
import CppDeps.Proofs.Query.Shapes
import Mathlib.Data.List.Forall2

/-!
# Which texts a declaration depends on

A syntax tree may be read with the bytes of one file or of another.  What is declared, on which lines,
and whether it is a template or virtual, follows from the shape of the tree and is the same for both.
Each other field is read from the texts of a few nodes (`Extraction.DeclarationNodes`,
`Extraction.IncludeNodes`), and is the same for both as soon as these nodes have the same text in both
(`Extraction.extractSource_agree`).  In particular bytes that cannot be decoded do no harm to a field
unless they lie inside one of its nodes.
-/

namespace CppDeps

/-! ## Reading a tree again -/

/-- A node with the text that another file has for it. -/
def Node.reread (source : ByteArray) (node : Node) : Node :=
  node.toShape.read source

/-- Reading a node again leaves its shape. -/
lemma keepsShape_reread (source : ByteArray) : KeepsShape (Node.reread source) :=
  fun _ => rfl

/-- A tree that was read with one file can be read with another instead. -/
lemma SyntaxTree.read_map_reread (tree : SyntaxTree) (source source' : ByteArray) :
    (tree.read source).map (Node.reread source') = tree.read source' := by
  unfold SyntaxTree.read
  rw [Tree.map_map]
  rfl

/-- The text that a file has for a node. -/
def Tree.textIn (source : ByteArray) (tree : Tree Node) : String :=
  textBetween source tree.datum.startByte tree.datum.endByte

/-- Two files have the same text for a node. -/
def SameText (source source' : ByteArray) (tree : Tree Node) : Prop :=
  tree.textIn source = tree.textIn source'

/-- The text of a node that was read again is the one that the other file has for it. -/
lemma Tree.text_map_reread (source : ByteArray) (tree : Tree Node) :
    (tree.map (Node.reread source)).text = tree.textIn source := by
  unfold Tree.text
  rw [Tree.datum_map]
  rfl

/-- What lies between two bytes of a file is found at its place in the file. -/
lemma getElem?_data_extract (source : ByteArray) (startByte endByte i : ℕ) :
    (source.extract startByte endByte).data[i]? =
      if startByte + i < endByte then source[startByte + i]? else none := by
  have hdata : source[startByte + i]? = source.data[startByte + i]? := by
    simp [getElem?_def, ByteArray.getElem_eq_getElem_data]
  rw [ByteArray.data_extract, Array.getElem?_extract, hdata]
  by_cases hend : startByte + i < endByte
  · rw [if_pos hend]
    split
    · rfl
    · rename_i hout
      have hsize : source.data.size ≤ startByte + i := by omega
      exact (Array.getElem?_eq_none hsize).symm
  · have hout : ¬ i < min endByte source.data.size - startByte := by omega
    rw [if_neg hend, if_neg hout]

/-- Files with the same bytes in the span of a node have the same text for it. -/
lemma sameText_of_forall_getElem? {source source' : ByteArray} {tree : Tree Node}
    (h : ∀ i, tree.datum.startByte ≤ i → i < tree.datum.endByte → source[i]? = source'[i]?) :
    SameText source source' tree := by
  have hbytes : source.extract tree.datum.startByte tree.datum.endByte =
      source'.extract tree.datum.startByte tree.datum.endByte := by
    apply ByteArray.ext
    apply Array.ext_getElem?
    intro i
    rw [getElem?_data_extract, getElem?_data_extract]
    split
    · rename_i hend
      exact h _ (Nat.le_add_right _ i) hend
    · rfl
  unfold SameText Tree.textIn textBetween
  rw [hbytes]

namespace Extraction

/-! ## The nodes that are read -/

/-- The nodes from which the fields of a declaration are read. -/
structure DeclarationNodes where
  name : Tree Node
  scope : Option (Tree Node) := none
  /-- One node for each parameter. -/
  params : List (Tree Node) := []
  returnType : Option (Tree Node) := none
  /-- The storage classes, one of which may be `static`. -/
  storage : List (Tree Node) := []

/-- The nodes from which an include directive is read. -/
structure IncludeNodes where
  path : Tree Node
  /-- The whole directive, which tells a system header from others. -/
  directive : Option (Tree Node)

/-- The node that names the nearest named scope around a place. -/
def enclosingNode? (place : Place Node) : Option (Tree Node) :=
  place.ancestors.findSome? fun tree => tree.firstChild? (scopeNameKinds tree.kind)

/-- The qualified name that ends with a name. -/
def qualifiedNode? (name : Place Node) : Option (Tree Node) :=
  (name.parent?.filter fun parent => parent.kind == "qualified_identifier").map Place.tree

/-- The parameters of a function declarator. -/
def parameterNodes (declarator : Tree Node) : List (Tree Node) :=
  ((declarator.children.filter fun child => child.kind == "parameter_list").flatMap
    Tree.children).filter fun child => parameterKinds.contains child.kind

/-- The nodes from which a function is read: its scope from the name of the scope around it, or else
from its qualified name. -/
def functionNodes (name definition : Place Node) : DeclarationNodes where
  name := name.tree
  scope := (enclosingNode? definition).or (qualifiedNode? name)
  params := (name.nearestAncestor? "function_declarator").elim [] fun declarator =>
    parameterNodes declarator.tree
  returnType := definition.tree.firstChild? returnTypeKinds
  storage := definition.tree.children.filter fun child => child.kind == "storage_class_specifier"

/-- The nodes from which a class is read. -/
def classNodes (name definition : Place Node) : DeclarationNodes where
  name := name.tree
  scope := enclosingNode? definition

/-- The node from which a struct is read. -/
def structNodes (name _definition : Place Node) : DeclarationNodes where
  name := name.tree

/-- The node from which a namespace is read. -/
def namespaceNodes (name definition : Place Node) : DeclarationNodes where
  name := (definition.tree.firstChild? namespaceNameKinds).getD name.tree

/-- The names captured for a category, each with the definition of a kind that it belongs to. -/
def declared (category : Category) (kind : String) (tree : Tree Node) :
    List (Place Node × Place Node) :=
  ((Query.captureSet tree).named category).filterMap fun name =>
    (name.nearestAncestor? kind).map fun definition => (name, definition)

/-- The nodes from which the declarations of a kind are read, in the order of the declarations. -/
def declarationNodes (tree : Tree Node) : SymbolKind → List DeclarationNodes
  | .function =>
    (declared .functions "function_definition" tree).map fun site => functionNodes site.1 site.2
  | .classType =>
    (declared .classes "class_specifier" tree).map fun site => classNodes site.1 site.2
  | .structType =>
    (declared .structs "struct_specifier" tree).map fun site => structNodes site.1 site.2
  | .nameSpace =>
    (declared .namespaces "namespace_definition" tree).map fun site => namespaceNodes site.1 site.2

/-- The nodes from which the include directives are read, in the order of the directives. -/
def includeNodes (tree : Tree Node) : List IncludeNodes :=
  ((Query.captureSet tree).named .includes).map fun path =>
    ⟨path.tree, path.parent?.map Place.tree⟩

end Extraction

/-! ## Agreement -/

/-- Two lists are of one length and agree position by position, each time on what is read from the nodes
at that position of a third list. -/
def AgreeEach {α β : Type*} (agree : β → α → α → Prop) (nodes : List β) (l l' : List α) : Prop :=
  l.length = nodes.length ∧ l'.length = nodes.length ∧
    List.Forall₂ (fun node pair => agree node pair.1 pair.2) nodes (l.zip l')

/-- Two declarations agree on what no text decides, and on each field whose nodes have the same text. -/
structure Symbol.AgreesOn (same : Tree Node → Prop) (nodes : Extraction.DeclarationNodes)
    (symbol symbol' : Symbol) : Prop where
  kind_eq : symbol.kind = symbol'.kind
  startLine_eq : symbol.startLine = symbol'.startLine
  endLine_eq : symbol.endLine = symbol'.endLine
  isTemplate_eq : symbol.isTemplate = symbol'.isTemplate
  isVirtual_eq : symbol.isVirtual = symbol'.isVirtual
  name_eq : same nodes.name → symbol.name = symbol'.name
  scope_eq : (∀ node ∈ nodes.scope, same node) → symbol.scope = symbol'.scope
  params_agree : AgreeEach (fun node param param' => same node → param = param') nodes.params
    symbol.params symbol'.params
  returnType_eq : (∀ node ∈ nodes.returnType, same node) → symbol.returnType = symbol'.returnType
  isStatic_eq : (∀ node ∈ nodes.storage, same node) → symbol.isStatic = symbol'.isStatic

/-- A declaration without parameters, result and the modifiers of functions. -/
structure Symbol.IsPlain (symbol : Symbol) : Prop where
  params_eq : symbol.params = []
  returnType_eq : symbol.returnType = none
  isVirtual_eq : symbol.isVirtual = false
  isStatic_eq : symbol.isStatic = false

/-- Two include directives agree on the line, and on each other field whose node has the same text. -/
structure Include.AgreesOn (same : Tree Node → Prop) (nodes : Extraction.IncludeNodes)
    (directive directive' : Include) : Prop where
  line_eq : directive.line = directive'.line
  path_eq : same nodes.path → directive.path = directive'.path
  isSystem_eq : (∀ node ∈ nodes.directive, same node) → directive.isSystem = directive'.isSystem

/-- What is made of the same elements in two ways agrees if it does so for each element. -/
lemma agreeEach_map {α β γ : Type*} {agree : β → α → α → Prop} {node : γ → β} {f g : γ → α}
    {l : List γ} (h : ∀ c ∈ l, agree (node c) (f c) (g c)) :
    AgreeEach agree (l.map node) (l.map f) (l.map g) := by
  refine ⟨by rw [List.length_map, List.length_map], by rw [List.length_map, List.length_map], ?_⟩
  rw [List.zip_map', List.forall₂_map_left_iff, List.forall₂_map_right_iff, List.forall₂_same]
  exact h

namespace Extraction

variable {f : Node → Node} {source source' : ByteArray} {name definition : Place Node}

/-! ## Reading the nodes -/

/-- The first child of some kinds stays the first. -/
lemma firstChild?_map (h : KeepsShape f) (kinds : List String) (tree : Tree Node) :
    (tree.map f).firstChild? kinds = (tree.firstChild? kinds).map (Tree.map f) := by
  have htest : (fun child : Tree Node => kinds.contains child.kind) ∘ Tree.map f =
      fun child => kinds.contains child.kind := by
    funext child
    have hkind : (child.map f).kind = child.kind := Place.kind_map h ⟨child, []⟩
    rw [Function.comp_apply, hkind]
  unfold Tree.firstChild?
  rw [Tree.children_map, List.find?_map, htest]

/-- The name of the scope around a place is read from its node. -/
lemma enclosingScope?_map_reread (source : ByteArray) (place : Place Node) :
    enclosingScope? (place.map (Node.reread source)) =
      (enclosingNode? place).map (Tree.textIn source) := by
  obtain ⟨tree, ancestors⟩ := place
  show (ancestors.map (Tree.map (Node.reread source))).findSome? scopeName? = _
  unfold enclosingNode?
  induction ancestors with
  | nil => rfl
  | cons parent above ih =>
    have hkind : (parent.map (Node.reread source)).kind = parent.kind :=
      Place.kind_map (keepsShape_reread source) ⟨parent, above⟩
    have hparent : scopeName? (parent.map (Node.reread source)) =
        (parent.firstChild? (scopeNameKinds parent.kind)).map (Tree.textIn source) := by
      unfold scopeName?
      rw [hkind, firstChild?_map (keepsShape_reread source), Option.map_map]
      congr 1
      funext child
      exact Tree.text_map_reread source child
    rw [List.map_cons, List.findSome?_cons, List.findSome?_cons, hparent]
    cases parent.firstChild? (scopeNameKinds parent.kind) with
    | none => exact ih
    | some child => rfl

/-- Where no scope around a function has a name, the qualifier of its name is read from the qualified
name. -/
lemma qualifier?_map_reread (source : ByteArray) (name : Place Node) :
    qualifier? (name.map (Node.reread source)) = (qualifiedNode? name).bind fun qualified =>
      ((Text.beforeLastColons (qualified.textIn source)).map Text.trim).filter
        fun scope => !scope.isEmpty := by
  unfold qualifier? qualifiedNode?
  rw [Place.parent?_map]
  cases name.parent? with
  | none => rfl
  | some parent =>
    have hkind : (parent.map (Node.reread source)).kind = parent.kind :=
      Place.kind_map (keepsShape_reread source) parent
    have htext : (parent.map (Node.reread source)).text = parent.tree.textIn source :=
      Tree.text_map_reread source parent.tree
    simp only [Option.map_some, Option.filter_some, beq_iff_eq, hkind, htext]
    by_cases hqualified : parent.kind = "qualified_identifier"
    · rw [if_pos hqualified, if_pos hqualified, Option.map_some, Option.bind_some]
    · rw [if_neg hqualified, if_neg hqualified, Option.map_none, Option.bind_none]

/-- The parameters of a function declarator are read from their nodes. -/
lemma parameters_map_reread (source : ByteArray) (declarator : Tree Node) :
    parameters (declarator.map (Node.reread source)) =
      (parameterNodes declarator).map (Tree.textIn source) := by
  have hkind : ∀ tree : Tree Node, (tree.map (Node.reread source)).kind = tree.kind := fun tree =>
    Place.kind_map (keepsShape_reread source) ⟨tree, []⟩
  unfold parameters parameterNodes
  simp only
  rw [Tree.children_map, filter_map_of_forall (fun child => by rw [hkind]),
    flatMap_map_of_forall (Tree.children_map (Node.reread source)),
    filter_map_of_forall (fun child => by rw [hkind]), List.map_map]
  refine List.map_congr_left fun param _ => ?_
  exact Tree.text_map_reread source param

/-- Whether a definition is static is read from its storage classes. -/
lemma isStatic_map_reread (source : ByteArray) (definition : Tree Node) :
    isStatic (definition.map (Node.reread source)) =
      ((definition.children.filter fun child => child.kind == "storage_class_specifier").map
        (Tree.textIn source)).any fun storage => Text.contains storage "static" := by
  unfold isStatic
  rw [Tree.children_map, List.any_map, List.any_map, List.any_filter]
  congr 1
  funext child
  have hkind : (child.map (Node.reread source)).kind = child.kind :=
    Place.kind_map (keepsShape_reread source) ⟨child, []⟩
  rw [Function.comp_apply, Function.comp_apply, hkind, Tree.text_map_reread]

/-- The first child of some kinds is read from its node. -/
lemma firstChild?_map_reread (source : ByteArray) (kinds : List String) (tree : Tree Node) :
    ((tree.map (Node.reread source)).firstChild? kinds).map Tree.text =
      (tree.firstChild? kinds).map (Tree.textIn source) := by
  rw [firstChild?_map (keepsShape_reread source), Option.map_map]
  refine Option.map_congr fun child _ => ?_
  exact Tree.text_map_reread source child

/-- Whether a definition is that of a template depends on shapes only. -/
lemma isTemplated_map (h : KeepsShape f) (definition : Place Node) :
    isTemplated (definition.map f) = isTemplated definition := by
  unfold isTemplated
  rw [Place.parent?_map]
  cases definition.parent? with
  | none => rfl
  | some parent => simp only [Option.map_some, Place.kind_map h]

/-! ## Agreement of one declaration -/

/-- What a definition spans and whether it is that of a template is the same in both readings. -/
lemma lines_eq_of_reread (source source' : ByteArray) (definition : Place Node) :
    (definition.map (Node.reread source)).datum.startLine =
        (definition.map (Node.reread source')).datum.startLine ∧
      (definition.map (Node.reread source)).datum.endLine =
        (definition.map (Node.reread source')).datum.endLine ∧
      isTemplated (definition.map (Node.reread source)) =
        isTemplated (definition.map (Node.reread source')) := by
  have hshape := Place.toShape_map (keepsShape_reread source) definition
  have hshape' := Place.toShape_map (keepsShape_reread source') definition
  have hsame := hshape.trans hshape'.symm
  refine ⟨congrArg Shape.startLine hsame, congrArg Shape.endLine hsame, ?_⟩
  rw [isTemplated_map (keepsShape_reread source), isTemplated_map (keepsShape_reread source')]

/-- Two readings of the scope of a function agree, if the files have the same text for the node that
names it. -/
lemma scope_eq_of_sameText
    (h : ∀ node ∈ (enclosingNode? definition).or (qualifiedNode? name), SameText source source' node) :
    (functionOf (name.map (Node.reread source)) (definition.map (Node.reread source))).scope =
      (functionOf (name.map (Node.reread source')) (definition.map (Node.reread source'))).scope := by
  unfold functionOf
  simp only [enclosingScope?_map_reread, qualifier?_map_reread]
  cases henclosing : enclosingNode? definition with
  | some node =>
    have hsame : node.textIn source = node.textIn source' := h node (by rw [henclosing]; rfl)
    simp only [Option.map_some, Option.some_or, hsame]
  | none =>
    rw [henclosing, Option.none_or] at h
    simp only [Option.map_none, Option.none_or]
    cases hqualified : qualifiedNode? name with
    | none => rw [Option.bind_none, Option.bind_none]
    | some qualified =>
      have hsame : qualified.textIn source = qualified.textIn source' := h qualified hqualified
      rw [Option.bind_some, Option.bind_some, hsame]

/-- Two readings of the parameters of a function are as many, and each two agree if the files have the
same text for the parameter. -/
lemma params_agreeEach (source source' : ByteArray) (name definition : Place Node) :
    AgreeEach (fun node param param' => SameText source source' node → param = param')
      (functionNodes name definition).params
      (functionOf (name.map (Node.reread source)) (definition.map (Node.reread source))).params
      (functionOf (name.map (Node.reread source')) (definition.map (Node.reread source'))).params := by
  have hagree : ∀ nodes : List (Tree Node),
      AgreeEach (fun node param param' => SameText source source' node → param = param') nodes
        (nodes.map (Tree.textIn source)) (nodes.map (Tree.textIn source')) := by
    intro nodes
    have hmap : AgreeEach (fun node param param' => SameText source source' node → param = param')
        (nodes.map id) (nodes.map (Tree.textIn source)) (nodes.map (Tree.textIn source')) :=
      agreeEach_map fun _ _ hsame => hsame
    rwa [List.map_id] at hmap
  have hparams : ∀ source'', (functionOf (name.map (Node.reread source''))
      (definition.map (Node.reread source''))).params =
        (functionNodes name definition).params.map (Tree.textIn source'') := by
    intro source''
    unfold functionOf functionNodes
    simp only [Place.nearestAncestor?_map (keepsShape_reread source'')]
    cases name.nearestAncestor? "function_declarator" with
    | none => rfl
    | some declarator => exact parameters_map_reread source'' declarator.tree
  rw [hparams, hparams]
  exact hagree _

/-- Two readings of a function agree on what is read from nodes with the same text. -/
lemma functionOf_agreesOn (source source' : ByteArray) (name definition : Place Node) :
    Symbol.AgreesOn (SameText source source') (functionNodes name definition)
      (functionOf (name.map (Node.reread source)) (definition.map (Node.reread source)))
      (functionOf (name.map (Node.reread source')) (definition.map (Node.reread source'))) := by
  obtain ⟨hstart, hend, htemplate⟩ := lines_eq_of_reread source source' definition
  have hvirtual : ∀ source'', (functionOf (name.map (Node.reread source''))
      (definition.map (Node.reread source''))).isVirtual =
        (definition.tree.firstChild? virtualKinds).isSome := by
    intro source''
    show ((definition.tree.map (Node.reread source'')).firstChild? virtualKinds).isSome = _
    rw [firstChild?_map (keepsShape_reread source''), Option.isSome_map]
  have hkind : ∀ name definition, (functionOf name definition).kind = .function := fun _ _ => rfl
  refine ⟨(hkind _ _).trans (hkind _ _).symm, hstart, hend, htemplate,
    (hvirtual source).trans (hvirtual source').symm, ?_, scope_eq_of_sameText,
    params_agreeEach source source' name definition, ?_, ?_⟩
  · intro hname
    show (name.tree.map _).text = (name.tree.map _).text
    rw [Tree.text_map_reread, Tree.text_map_reread]
    exact hname
  · intro hreturn
    show ((definition.tree.map (Node.reread source)).firstChild? returnTypeKinds).map Tree.text =
      ((definition.tree.map (Node.reread source')).firstChild? returnTypeKinds).map Tree.text
    rw [firstChild?_map_reread, firstChild?_map_reread]
    exact Option.map_congr hreturn
  · intro hstorage
    show isStatic (definition.tree.map (Node.reread source)) =
      isStatic (definition.tree.map (Node.reread source'))
    rw [isStatic_map_reread, isStatic_map_reread]
    exact congrArg (List.any · _) (List.map_congr_left hstorage)

/-- Two declarations that are no functions agree if they agree on kind, lines, name and scope, and on
whether they are templates. -/
lemma agreesOn_of_isPlain {same : Tree Node → Prop} {nodes : DeclarationNodes} {symbol symbol' : Symbol}
    (hparams : nodes.params = []) (hplain : symbol.IsPlain) (hplain' : symbol'.IsPlain)
    (hkind : symbol.kind = symbol'.kind) (hstart : symbol.startLine = symbol'.startLine)
    (hend : symbol.endLine = symbol'.endLine) (htemplate : symbol.isTemplate = symbol'.isTemplate)
    (hname : same nodes.name → symbol.name = symbol'.name)
    (hscope : (∀ node ∈ nodes.scope, same node) → symbol.scope = symbol'.scope) :
    symbol.AgreesOn same nodes symbol' where
  kind_eq := hkind
  startLine_eq := hstart
  endLine_eq := hend
  isTemplate_eq := htemplate
  isVirtual_eq := by rw [hplain.isVirtual_eq, hplain'.isVirtual_eq]
  name_eq := hname
  scope_eq := hscope
  params_agree := by
    rw [hparams, hplain.params_eq, hplain'.params_eq]
    exact ⟨rfl, rfl, List.Forall₂.nil⟩
  returnType_eq _ := by rw [hplain.returnType_eq, hplain'.returnType_eq]
  isStatic_eq _ := by rw [hplain.isStatic_eq, hplain'.isStatic_eq]

/-- Two readings of a class agree on what is read from nodes with the same text. -/
lemma classOf_agreesOn (source source' : ByteArray) (name definition : Place Node) :
    Symbol.AgreesOn (SameText source source') (classNodes name definition)
      (classOf (name.map (Node.reread source)) (definition.map (Node.reread source)))
      (classOf (name.map (Node.reread source')) (definition.map (Node.reread source'))) := by
  obtain ⟨hstart, hend, htemplate⟩ := lines_eq_of_reread source source' definition
  have hplain : ∀ name definition, (classOf name definition).IsPlain := fun _ _ =>
    ⟨rfl, rfl, rfl, rfl⟩
  have hkind : ∀ name definition, (classOf name definition).kind = .classType := fun _ _ => rfl
  refine agreesOn_of_isPlain rfl (hplain _ _) (hplain _ _) ((hkind _ _).trans (hkind _ _).symm) hstart
    hend htemplate ?_ ?_
  · intro hname
    show (name.tree.map _).text = (name.tree.map _).text
    rw [Tree.text_map_reread, Tree.text_map_reread]
    exact hname
  · intro hscope
    show enclosingScope? _ = enclosingScope? _
    rw [enclosingScope?_map_reread, enclosingScope?_map_reread]
    exact Option.map_congr hscope

/-- Two readings of a struct agree on what is read from nodes with the same text. -/
lemma structOf_agreesOn (source source' : ByteArray) (name definition : Place Node) :
    Symbol.AgreesOn (SameText source source') (structNodes name definition)
      (structOf (name.map (Node.reread source)) (definition.map (Node.reread source)))
      (structOf (name.map (Node.reread source')) (definition.map (Node.reread source'))) := by
  obtain ⟨hstart, hend, htemplate⟩ := lines_eq_of_reread source source' definition
  have hplain : ∀ name definition, (structOf name definition).IsPlain := fun _ _ =>
    ⟨rfl, rfl, rfl, rfl⟩
  have hkind : ∀ name definition, (structOf name definition).kind = .structType := fun _ _ => rfl
  have hscope : ∀ name definition, (structOf name definition).scope = none := fun _ _ => rfl
  refine agreesOn_of_isPlain rfl (hplain _ _) (hplain _ _) ((hkind _ _).trans (hkind _ _).symm) hstart
    hend htemplate ?_ fun _ => (hscope _ _).trans (hscope _ _).symm
  intro hname
  show (name.tree.map _).text = (name.tree.map _).text
  rw [Tree.text_map_reread, Tree.text_map_reread]
  exact hname

/-- Two readings of a namespace agree on what is read from nodes with the same text. -/
lemma namespaceOf_agreesOn (source source' : ByteArray) (name definition : Place Node) :
    Symbol.AgreesOn (SameText source source') (namespaceNodes name definition)
      (namespaceOf (name.map (Node.reread source)) (definition.map (Node.reread source)))
      (namespaceOf (name.map (Node.reread source')) (definition.map (Node.reread source'))) := by
  obtain ⟨hstart, hend, -⟩ := lines_eq_of_reread source source' definition
  have hplain : ∀ name definition, (namespaceOf name definition).IsPlain := fun _ _ =>
    ⟨rfl, rfl, rfl, rfl⟩
  have hkind : ∀ name definition, (namespaceOf name definition).kind = .nameSpace := fun _ _ => rfl
  have htemplate : ∀ name definition, (namespaceOf name definition).isTemplate = false := fun _ _ =>
    rfl
  have hscope : ∀ name definition, (namespaceOf name definition).scope = none := fun _ _ => rfl
  have hname : ∀ source'', (namespaceOf (name.map (Node.reread source''))
      (definition.map (Node.reread source''))).name =
        (namespaceNodes name definition).name.textIn source'' := by
    intro source''
    show (((definition.tree.map (Node.reread source'')).firstChild? namespaceNameKinds).map
      Tree.text).getD (name.tree.map _).text = _
    rw [firstChild?_map_reread, Tree.text_map_reread, namespaceNodes, Option.getD_map]
  refine agreesOn_of_isPlain rfl (hplain _ _) (hplain _ _) ((hkind _ _).trans (hkind _ _).symm) hstart
    hend ((htemplate _ _).trans (htemplate _ _).symm) ?_
    fun _ => (hscope _ _).trans (hscope _ _).symm
  intro hsame
  rw [hname, hname]
  exact hsame

/-- Two readings of an include directive agree on what is read from nodes with the same text. -/
lemma includeOf_agreesOn (source source' : ByteArray) (path : Place Node) :
    Include.AgreesOn (SameText source source') ⟨path.tree, path.parent?.map Place.tree⟩
      (includeOf (path.map (Node.reread source))) (includeOf (path.map (Node.reread source'))) := by
  refine ⟨?_, ?_, ?_⟩
  · have hshape := Place.toShape_map (keepsShape_reread source) path
    have hshape' := Place.toShape_map (keepsShape_reread source') path
    exact congrArg Shape.startLine (hshape.trans hshape'.symm)
  · intro hpath
    show Text.trimBoth _ (path.tree.map _).text = Text.trimBoth _ (path.tree.map _).text
    rw [Tree.text_map_reread, Tree.text_map_reread]
    exact congrArg _ hpath
  · intro hdirective
    unfold includeOf
    simp only [Place.parent?_map]
    cases hparent : path.parent? with
    | none => rfl
    | some directive =>
      have hsame : directive.tree.textIn source = directive.tree.textIn source' :=
        hdirective directive.tree (by rw [hparent]; rfl)
      have htext : ∀ source'', (directive.map (Node.reread source'')).text =
          directive.tree.textIn source'' := fun source'' =>
        Tree.text_map_reread source'' directive.tree
      simp only [Option.map_some, htext, hsame]

/-! ## Agreement of all declarations -/

/-- The definitions that captured names belong to are the same in both readings. -/
lemma symbolsOf_reread (category : Category) (kind : String)
    (symbolOf : Place Node → Place Node → Symbol) (tree : Tree Node) (source : ByteArray) :
    symbolsOf kind symbolOf
        ((Query.captureSet (tree.map (Node.reread source))).named category) =
      (declared category kind tree).map fun site =>
        symbolOf (site.1.map (Node.reread source)) (site.2.map (Node.reread source)) := by
  unfold symbolsOf declared
  rw [Query.named_captureSet_map (keepsShape_reread source), List.filterMap_map,
    List.map_filterMap]
  refine List.filterMap_congr fun name _ => ?_
  rw [Function.comp_apply, Place.nearestAncestor?_map (keepsShape_reread source), Option.map_map,
    Option.map_map]
  rfl

/-- **Only the texts that are read matter.**  Read one syntax tree with two files.  Then as many
declarations of each kind and include directives are found in both readings; each two at the same place
of their list agree on kind, lines, and whether they are templates or virtual; and they agree on each
other field, if the files have the same text for the nodes from which that field is read.  Files that
have the same bytes within the span of a node have the same text for it, whatever bytes stand
elsewhere. -/
theorem extractSource_agree (filePath : String) (tree : SyntaxTree) (source source' : ByteArray) :
    let parsed := tree.read source
    let symbols := extractSource filePath tree source
    let symbols' := extractSource filePath tree source'
    (∀ kind, AgreeEach (Symbol.AgreesOn (SameText source source')) (declarationNodes parsed kind)
      (symbols.symbolsOf kind) (symbols'.symbolsOf kind)) ∧
    AgreeEach (Include.AgreesOn (SameText source source')) (includeNodes parsed)
      symbols.includes symbols'.includes ∧
    ∀ node : Tree Node, (∀ i, node.datum.startByte ≤ i → i < node.datum.endByte →
      source[i]? = source'[i]?) → SameText source source' node := by
  intro parsed symbols symbols'
  have hread : tree.read source = parsed.map (Node.reread source) :=
    (tree.read_map_reread source source).symm
  have hread' : tree.read source' = parsed.map (Node.reread source') :=
    (tree.read_map_reread source source').symm
  have hsymbols : symbols =
      extract filePath (some (Query.captureSet (parsed.map (Node.reread source)))) := by
    rw [← hread]
    rfl
  have hsymbols' : symbols' =
      extract filePath (some (Query.captureSet (parsed.map (Node.reread source')))) := by
    rw [← hread']
    rfl
  refine ⟨fun kind => ?_, ?_, fun node => sameText_of_forall_getElem?⟩
  · rw [hsymbols, hsymbols']
    cases kind with
    | function =>
      simp only [FileSymbols.symbolsOf, extract, symbolsOf_reread]
      exact agreeEach_map fun site _ => functionOf_agreesOn source source' site.1 site.2
    | classType =>
      simp only [FileSymbols.symbolsOf, extract, symbolsOf_reread]
      exact agreeEach_map fun site _ => classOf_agreesOn source source' site.1 site.2
    | structType =>
      simp only [FileSymbols.symbolsOf, extract, symbolsOf_reread]
      exact agreeEach_map fun site _ => structOf_agreesOn source source' site.1 site.2
    | nameSpace =>
      simp only [FileSymbols.symbolsOf, extract, symbolsOf_reread]
      exact agreeEach_map fun site _ => namespaceOf_agreesOn source source' site.1 site.2
  · rw [hsymbols, hsymbols']
    simp only [extract, Query.named_captureSet_map (keepsShape_reread _), List.map_map]
    exact agreeEach_map fun path _ => includeOf_agreesOn source source' path

end Extraction

end CppDeps
