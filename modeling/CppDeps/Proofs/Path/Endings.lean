import CppDeps.Proofs.Path.Reading

/-!
# How the text of a path ends

A text that ends with another one need not end at a slash there: `max.h` ends with `x.h`.  Where it
does, the two paths have the same last name (`Path.fileName?_of_slash_suffix`).  In any case the last
name of the shorter path is how the last name of the longer one ends
(`Path.exists_fileName?_of_suffix`).
-/

namespace CppDeps

namespace Path

/-- One path is the tail of another: it is the other one, or is what follows a slash of it. -/
def IsTailOf (path known : String) : Prop :=
  path = known ∨ '/' :: path.toList <:+ known.toList

instance : DecidableRel IsTailOf :=
  fun _ _ => inferInstanceAs (Decidable (_ ∨ _))

/-! ## The last field -/

/-- The name at the end of a path that was read is that of the last field which stands for a part. -/
lemma fileName?_parse_eq_some_iff {path name : String} :
    (parse path).fileName? = some name ↔
      ((path.toList.splitOn '/').filterMap Part.ofField?).getLast? = some (.name name) := by
  rw [fileName?_eq_some_iff]
  show (partsOf (path.toList.splitOn '/')).getLast? = _ ↔ _
  unfold partsOf
  split
  · -- the `.` in front is no name, so it is not the part looked for
    cases (path.toList.splitOn '/').filterMap Part.ofField? with
    | nil => exact iff_of_false (by simp) (by simp)
    | cons part parts => rw [List.getLast?_cons_cons]
  · exact Iff.rfl

/-- The last part of the fields of a text is that of the fields behind a slash, or, if these stand for no
part, that of the fields before it. -/
lemma getLast?_filterMap_splitOn (before after : List Char) :
    (((before ++ '/' :: after).splitOn '/').filterMap Part.ofField?).getLast? =
      ((after.splitOn '/').filterMap Part.ofField?).getLast?.or
        ((before.splitOn '/').filterMap Part.ofField?).getLast? := by
  rw [List.splitOn_append_cons_self, List.filterMap_append, List.getLast?_append]

/-- A text without a slash is one field, and its last part is that of this field. -/
lemma getLast?_filterMap_splitOn_of_notMem {field : List Char} (h : '/' ∉ field) :
    ((field.splitOn '/').filterMap Part.ofField?).getLast? = Part.ofField? field := by
  rw [List.splitOn_eq_singleton h, List.filterMap_cons]
  cases Part.ofField? field <;> rfl

/-- The fields of a text, whose last part has no slash, end with a field that ends with this part. -/
lemma exists_splitOn_append_eq {field : List Char} (hfield : '/' ∉ field) (before : List Char) :
    ∃ fields lead, (before ++ field).splitOn '/' = fields ++ [lead ++ field] := by
  induction before with
  | nil => exact ⟨[], [], List.splitOn_eq_singleton hfield⟩
  | cons c before ih =>
    obtain ⟨fields, lead, hsplit⟩ := ih
    rw [List.cons_append, List.splitOn_cons_eq_if_modifyHead, hsplit]
    split
    · exact ⟨[] :: fields, lead, rfl⟩
    · cases fields with
      | nil => exact ⟨[], c :: lead, rfl⟩
      | cons first fields => exact ⟨(c :: first) :: fields, lead, rfl⟩

/-- A field that ends with a name stands for a name. -/
lemma Part.ofField?_append {field : List Char} {name : String}
    (h : Part.ofField? field = some (.name name)) (lead : List Char) :
    Part.ofField? (lead ++ field) = some (.name (String.ofList (lead ++ field))) := by
  have hdot : ∀ dots, field <:+ dots → dots = ['.', '.'] → False := by
    rintro dots hsuffix rfl
    rcases List.suffix_cons_iff.1 hsuffix with rfl | hsuffix
    · exact absurd h (by simp [Part.ofField?])
    · rcases List.suffix_cons_iff.1 hsuffix with rfl | hsuffix
      · exact absurd h (by simp [Part.ofField?])
      · rw [List.suffix_nil.1 hsuffix] at h
        exact absurd h (by simp [Part.ofField?])
  have hend : field <:+ lead ++ field := List.suffix_append lead field
  unfold Part.ofField?
  split
  · rename_i hnil
    rw [hnil] at hend
    exact (hdot _ (hend.trans List.nil_suffix) rfl).elim
  · rename_i hone
    rw [hone] at hend
    exact (hdot _ (hend.trans ⟨['.'], rfl⟩) rfl).elim
  · rename_i htwo
    rw [htwo] at hend
    exact (hdot _ hend rfl).elim
  · rfl

/-! ## Texts that end with a path -/

variable {path known name : String}

/-- A path that ends in a name has the same last name when more is put in front of it with a slash
between the two. -/
lemma fileName?_of_slash_suffix (hname : (parse path).fileName? = some name)
    (h : '/' :: path.toList <:+ known.toList) : (parse known).fileName? = some name := by
  obtain ⟨before, hknown⟩ := h
  rw [fileName?_parse_eq_some_iff] at hname ⊢
  rw [← hknown, getLast?_filterMap_splitOn, hname, Option.some_or]

/-- A path that ends in a name has the same basename as any path of which it is the tail. -/
lemma basename_of_isTailOf (hname : (parse path).fileName? = some name) (h : IsTailOf path known) :
    basename known = basename path := by
  rcases h with rfl | hslash
  · rfl
  · rw [basename_of_fileName? (fileName?_of_slash_suffix hname hslash), basename_of_fileName? hname]

/-- A text that ends with a field which stands for a name ends in a name that ends with this one. -/
lemma exists_getLast?_of_append {field : List Char} (hslash : '/' ∉ field)
    (hname : Part.ofField? field = some (.name name)) (before : List Char) :
    ∃ other, (((before ++ field).splitOn '/').filterMap Part.ofField?).getLast? =
      some (.name other) ∧ name.toList <:+ other.toList := by
  obtain ⟨fields, lead, hsplit⟩ := exists_splitOn_append_eq hslash before
  have htext : name.toList = field := Part.toList_text_of_ofField? hname
  refine ⟨String.ofList (lead ++ field), ?_, ?_⟩
  · rw [hsplit, List.filterMap_append, List.filterMap_cons_some (Part.ofField?_append hname lead)]
    exact List.getLast?_concat
  · rw [htext, String.toList_ofList]
    exact List.suffix_append lead field

/-- **The last name of a text that ends with a path** ends with the last name of the path. -/
lemma exists_fileName?_of_suffix (hname : (parse path).fileName? = some name)
    (h : path.toList <:+ known.toList) :
    ∃ other, (parse known).fileName? = some other ∧ name.toList <:+ other.toList := by
  obtain ⟨before, hknown⟩ := h
  simp only [fileName?_parse_eq_some_iff] at hname ⊢
  rw [← hknown]
  by_cases hslash : '/' ∈ path.toList
  · obtain ⟨first, rest, hpath, hfirst⟩ := List.eq_append_cons_of_mem hslash
    rw [hpath, getLast?_filterMap_splitOn, getLast?_filterMap_splitOn_of_notMem hfirst,
      Option.or_eq_some_iff] at hname
    rw [hpath, ← List.append_assoc, getLast?_filterMap_splitOn]
    rcases hname with hlater | ⟨hnone, hname⟩
    · -- the name stands behind the first slash, where nothing has changed
      rw [hlater, Option.some_or]
      exact ⟨name, rfl, List.suffix_rfl⟩
    · rw [hnone, Option.none_or]
      exact exists_getLast?_of_append hfirst hname before
  · rw [getLast?_filterMap_splitOn_of_notMem hslash] at hname
    exact exists_getLast?_of_append hslash hname before

end Path

end CppDeps
