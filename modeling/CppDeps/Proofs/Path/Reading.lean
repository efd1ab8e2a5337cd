import CppDeps.Path
import Mathlib.Data.List.Basic
import Mathlib.Tactic

/-!
# Reading back what was written

A path is written with one slash between its parts, and reading splits a text at its slashes.  So the
parts come back, provided that none of them holds a slash and each is what its own text stands for
(`Path.Part.IsPlain`).  Every part that was read is of this kind, except for the `.` that may start a
relative path; folding takes that `.` out.

A name at the end of a path stays there when the path is joined to a directory, folded and written.
Hence the basename of the outcome is that name, whatever the directory was
(`Path.basename_render_normalize_join`).
-/

namespace CppDeps

namespace Path

/-! ## Plain parts -/

/-- A part is plain if its text between two slashes stands for it: it is `..`, or a name that is
neither empty nor `.` nor `..` and has no slash. -/
def Part.IsPlain (part : Part) : Prop :=
  '/' ∉ part.text.toList ∧ Part.ofField? part.text.toList = some part

/-- The part that a field stands for has the field as its text. -/
lemma Part.toList_text_of_ofField? {field : List Char} {part : Part}
    (h : Part.ofField? field = some part) : part.text.toList = field := by
  unfold Part.ofField? at h
  split at h
  · exact absurd h (by simp)
  · exact absurd h (by simp)
  · rw [← Option.some.inj h]
    rfl
  · rw [← Option.some.inj h]
    exact String.toList_ofList

/-- A field that stands for no part is not the text of a plain one. -/
lemma Part.IsPlain.toList_text_ne {part : Part} (h : part.IsPlain) {field : List Char}
    (hfield : Part.ofField? field = none) : part.text.toList ≠ field := by
  rintro rfl
  exact absurd (h.2.symm.trans hfield) (by simp)

/-- A field between two slashes has no slash. -/
lemma notMem_of_mem_splitOn {text field : List Char} (h : field ∈ text.splitOn '/') :
    '/' ∉ field := by
  induction text generalizing field with
  | nil =>
    rw [List.splitOn_nil, List.mem_singleton] at h
    rw [h]
    exact List.not_mem_nil
  | cons c text ih =>
    rw [List.splitOn, List.splitOnP_cons_eq_if_modifyHead, ← List.splitOn] at h
    split at h
    · rcases List.mem_cons.1 h with rfl | h
      · exact List.not_mem_nil
      · exact ih h
    · rename_i hc
      obtain ⟨first, rest, hsplit⟩ := List.exists_cons_of_ne_nil (List.splitOn_ne_nil '/' text)
      rw [hsplit, List.modifyHead_cons] at h
      rcases List.mem_cons.1 h with rfl | h
      · have hfirst : '/' ∉ first := ih (hsplit ▸ List.mem_cons_self)
        rw [List.mem_cons, not_or]
        exact ⟨fun hslash => hc (beq_iff_eq.2 hslash.symm), hfirst⟩
      · exact ih (hsplit ▸ List.mem_cons_of_mem first h)

/-- A part that was read is plain, or the `.` at the start of a relative path. -/
lemma isPlain_of_mem_parse {text : String} {part : Part} (h : part ∈ (parse text).parts) :
    part = .here ∨ part.IsPlain := by
  have hfields : part ∈ (text.toList.splitOn '/').filterMap Part.ofField? → part.IsPlain := by
    intro hpart
    obtain ⟨field, hfield, hstands⟩ := List.mem_filterMap.1 hpart
    rw [Part.IsPlain, Part.toList_text_of_ofField? hstands]
    exact ⟨notMem_of_mem_splitOn hfield, hstands⟩
  simp only [parse, partsOf] at h
  split at h
  · exact (List.mem_cons.1 h).imp_right hfields
  · exact Or.inr (hfields h)

/-! ## Written paths -/

/-- The fields between the slashes of a written path: the texts of its parts, after an empty one if it
is absolute. -/
def fields (p : Path) : List (List Char) :=
  (if p.isAbsolute then [[]] else []) ++ p.parts.map fun part => part.text.toList

/-- A field is empty or the text of a part. -/
lemma of_mem_fields {p : Path} {field : List Char} (h : field ∈ p.fields) :
    field = [] ∨ ∃ part ∈ p.parts, part.text.toList = field := by
  rcases List.mem_append.1 h with hroot | hpart
  · cases hroot' : p.isAbsolute <;> rw [hroot'] at hroot
    · exact absurd hroot List.not_mem_nil
    · exact Or.inl (List.mem_singleton.1 hroot)
  · exact Or.inr (List.mem_map.1 hpart)

/-- A path with parts is written as its fields, with slashes between them. -/
lemma toList_render {p : Path} (hparts : p.parts ≠ []) :
    p.render.toList = ['/'].intercalate p.fields := by
  obtain ⟨isAbsolute, _ | ⟨first, rest⟩⟩ := p
  · exact absurd rfl hparts
  · have hslash : "/".toList = ['/'] := rfl
    rw [render, fields, String.toList_append, String.toList_intercalate, List.map_map, hslash]
    cases isAbsolute
    · rfl
    · simp only [if_true, List.map_cons, List.singleton_append, List.intercalate_cons_cons, hslash]
      rfl

/-- The fields of a path stand for its parts. -/
lemma filterMap_ofField?_fields {p : Path} (hplain : ∀ part ∈ p.parts, part.IsPlain) :
    p.fields.filterMap Part.ofField? = p.parts := by
  have hroot : (if p.isAbsolute then [[]] else []).filterMap Part.ofField? = [] := by
    cases p.isAbsolute <;> rfl
  rw [fields, List.filterMap_append, hroot, List.nil_append, List.filterMap_map]
  exact (List.filterMap_congr fun part hpart => (hplain part hpart).2).trans List.filterMap_some

/-- Splitting a written path at the slashes gives its fields. -/
lemma splitOn_render {p : Path} (hparts : p.parts ≠ [])
    (hplain : ∀ part ∈ p.parts, part.IsPlain) :
    p.render.toList.splitOn '/' = p.fields := by
  have hslash : ∀ field ∈ p.fields, '/' ∉ field := by
    intro field hfield
    rcases of_mem_fields hfield with rfl | ⟨part, hpart, rfl⟩
    · exact List.not_mem_nil
    · exact (hplain part hpart).1
  have hfields : p.fields ≠ [] := fun h =>
    hparts (List.map_eq_nil_iff.1 (List.append_eq_nil_iff.1 h).2)
  rw [toList_render hparts]
  exact List.splitOn_intercalate '/' hslash hfields

/-- A written path starts with a slash if it is absolute, and only then. -/
lemma head?_render {p : Path} (hplain : ∀ part ∈ p.parts, part.IsPlain) :
    (p.render.toList.head? == some '/') = p.isAbsolute := by
  obtain ⟨_ | _, parts⟩ := p
  · rcases parts with _ | ⟨first, rest⟩
    · rfl
    · have hfirst : first.IsPlain := hplain first List.mem_cons_self
      obtain ⟨c, text, htext⟩ := List.exists_cons_of_ne_nil (hfirst.toList_text_ne rfl)
      have hc : c ≠ '/' := fun h => hfirst.1 (htext ▸ h ▸ List.mem_cons_self)
      have hhead : (render ⟨false, first :: rest⟩).toList.head? = some c := by
        rw [toList_render (List.cons_ne_nil first rest), fields, if_neg Bool.false_ne_true,
          List.nil_append, List.map_cons, htext]
        cases rest <;> rfl
      rw [hhead]
      exact beq_false_of_ne fun h => hc (Option.some.inj h)
  · rw [render, String.toList_append, if_pos rfl]
    rfl

/-- **Reading a written path gives it back**, if its parts are plain. -/
lemma parse_render {p : Path} (hplain : ∀ part ∈ p.parts, part.IsPlain) : parse p.render = p := by
  have hparts : partsOf (p.render.toList.splitOn '/') = p.parts := by
    by_cases hempty : p.parts = []
    · obtain ⟨isAbsolute, parts⟩ := p
      obtain rfl : parts = [] := hempty
      cases isAbsolute <;> rfl
    · -- the first field is empty or the text of a plain part, so it is not a `.`
      have hhead : p.fields.head? ≠ some ['.'] := by
        intro hdot
        rcases of_mem_fields (List.mem_of_mem_head? hdot) with hnil | ⟨part, hpart, htext⟩
        · exact List.cons_ne_nil _ _ hnil
        · exact (hplain part hpart).toList_text_ne rfl htext
      rw [partsOf, splitOn_render hempty hplain, if_neg hhead]
      exact filterMap_ofField?_fields hplain
  rw [parse, head?_render hplain, hparts]

/-! ## Joined and folded paths -/

/-- The parts of the directory around a path are parts of the path. -/
lemma mem_of_mem_parent? {p directory : Path} {part : Part} (h : p.parent? = some directory)
    (hpart : part ∈ directory.parts) : part ∈ p.parts := by
  unfold parent? at h
  split at h
  · exact absurd h (by simp)
  · rw [← Option.some.inj h] at hpart
    exact List.mem_of_mem_dropLast hpart

/-- The parts of a joined path come from the two paths. -/
lemma mem_of_mem_join {directory p : Path} {part : Part} (h : part ∈ (directory.join p).parts) :
    part ∈ directory.parts ∨ part ∈ p.parts := by
  unfold join at h
  split at h
  · exact Or.inr h
  · split at h
    · exact Or.inr h
    · exact (List.mem_append.1 h).imp_right List.mem_of_mem_filter

/-- Folding in one part puts at most this part on the stack, and never a `.`. -/
lemma mem_of_mem_fold {isAbsolute : Bool} {stack : List Part} {added part : Part}
    (h : part ∈ fold isAbsolute stack added) : part ∈ stack ∨ part = added ∧ added ≠ .here := by
  cases added with
  | here => exact Or.inl h
  | name text => exact (List.mem_cons.1 h).symm.imp_right fun heq => ⟨heq, by simp⟩
  | up =>
    simp only [fold] at h
    split at h
    · exact Or.inl (List.mem_cons_of_mem _ h)
    · split at h
      · exact Or.inl h
      · exact (List.mem_cons.1 h).symm.imp_right fun heq => ⟨heq, by simp⟩

/-- Folding in several parts puts only these on the stack, and never a `.`. -/
lemma mem_of_mem_foldl_fold {isAbsolute : Bool} {stack parts : List Part} {part : Part}
    (h : part ∈ parts.foldl (fold isAbsolute) stack) :
    part ∈ stack ∨ part ∈ parts ∧ part ≠ .here := by
  induction parts generalizing stack with
  | nil => exact Or.inl h
  | cons first parts ih =>
    rcases ih h with hstack | ⟨hpart, hhere⟩
    · rcases mem_of_mem_fold hstack with hstack | ⟨rfl, hhere⟩
      · exact Or.inl hstack
      · exact Or.inr ⟨List.mem_cons_self, hhere⟩
    · exact Or.inr ⟨List.mem_cons_of_mem first hpart, hhere⟩

/-- A folded path has only parts of the path, and no `.`. -/
lemma mem_of_mem_normalize {p : Path} {part : Part} (h : part ∈ p.normalize.parts) :
    part ∈ p.parts ∧ part ≠ .here :=
  (mem_of_mem_foldl_fold (List.mem_reverse.1 h)).resolve_left List.not_mem_nil

/-! ## The last name -/

/-- A path ends in a name if its last part is one. -/
lemma fileName?_eq_some_iff {p : Path} {name : String} :
    p.fileName? = some name ↔ p.parts.getLast? = some (.name name) := by
  unfold fileName?
  split
  · rename_i last hlast
    rw [hlast, Option.some.injEq, Option.some.injEq, Part.name.injEq]
  · rename_i hlast
    exact ⟨fun h => absurd h (by simp), fun h => absurd h (hlast name)⟩

/-- The basename of a path that ends in a name is that name. -/
lemma basename_of_fileName? {path name : String} (h : (parse path).fileName? = some name) :
    basename path = name := by
  rw [basename, h, Option.getD_some]

/-- The last name of a path stays last when the path is joined to a directory. -/
lemma fileName?_join (directory : Path) {p : Path} {name : String} (h : p.fileName? = some name) :
    (directory.join p).fileName? = some name := by
  unfold join
  split
  · exact h
  · split
    · exact h
    · rw [fileName?_eq_some_iff] at h ⊢
      obtain ⟨before, hparts⟩ := List.getLast?_eq_some_iff.1 h
      rw [hparts, List.filter_append, ← List.append_assoc]
      exact List.getLast?_concat

/-- The last name of a path stays last when the path is folded. -/
lemma fileName?_normalize {p : Path} {name : String} (h : p.fileName? = some name) :
    p.normalize.fileName? = some name := by
  rw [fileName?_eq_some_iff] at h ⊢
  obtain ⟨before, hparts⟩ := List.getLast?_eq_some_iff.1 h
  rw [normalize, hparts, List.foldl_append, List.foldl_cons, List.foldl_nil, fold, List.reverse_cons]
  exact List.getLast?_concat

/-- **The basename of a joined and folded path** is the name at the end of the path that was joined. -/
lemma basename_render_normalize_join {directory : Path}
    (hdirectory : ∀ part ∈ directory.parts, part = .here ∨ part.IsPlain) {path name : String}
    (hname : (parse path).fileName? = some name) :
    basename (directory.join (parse path)).normalize.render = name := by
  have hplain : ∀ part ∈ (directory.join (parse path)).normalize.parts, part.IsPlain := by
    intro part hpart
    obtain ⟨hjoin, hhere⟩ := mem_of_mem_normalize hpart
    rcases mem_of_mem_join hjoin with hmem | hmem
    · exact (hdirectory part hmem).resolve_left hhere
    · exact (isPlain_of_mem_parse hmem).resolve_left hhere
  refine basename_of_fileName? ?_
  rw [parse_render hplain]
  exact fileName?_normalize (fileName?_join directory hname)

end Path

end CppDeps
