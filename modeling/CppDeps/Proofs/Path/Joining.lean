import CppDeps.Path
import Mathlib.Data.List.Basic
import Mathlib.Tactic

/-!
# Joined texts

Joining two texts joins the paths that they stand for (`Path.parse_joinText`).  A relative text puts its
fields after those of the directory (`Text.splitOn_joinAt`); the `.` that may be its first field said
nothing but where it started, and is gone.
-/

namespace CppDeps

namespace Text

variable {α : Type} [DecidableEq α] {slash : α} {base name : List α}

/-! ## Fields of joined lists -/

/-- What starts with a slash is joined to nothing, and nothing is joined to an empty list. -/
lemma joinAt_of_or (h : name.head? = some slash ∨ base = []) : joinAt slash base name = name :=
  if_pos h

/-- Joining what does not start with a slash puts its fields after those of the first list, of which an
empty one at the end is lost. -/
lemma splitOn_joinAt (hbase : base ≠ []) (hname : name.head? ≠ some slash) :
    ∃ fields, (base.splitOn slash = fields ∨ base.splitOn slash = fields ++ [[]]) ∧
      (joinAt slash base name).splitOn slash = fields ++ name.splitOn slash := by
  rw [joinAt, if_neg (not_or.2 ⟨hname, hbase⟩)]
  split
  · rename_i hslash
    obtain ⟨front, rfl⟩ := List.getLast?_eq_some_iff.1 hslash
    refine ⟨front.splitOn slash, Or.inr ?_, ?_⟩
    · rw [List.splitOn_append_cons_self, List.splitOn_nil]
    · rw [List.append_assoc, List.singleton_append, List.splitOn_append_cons_self]
  · exact ⟨base.splitOn slash, Or.inl rfl, List.splitOn_append_cons_self base name⟩

/-- A joined list begins with the first one. -/
lemma head?_joinAt (hbase : base ≠ []) (hname : name.head? ≠ some slash) :
    (joinAt slash base name).head? = base.head? := by
  rw [joinAt, if_neg (not_or.2 ⟨hname, hbase⟩)]
  split <;> exact List.head?_append_of_ne_nil _ hbase

end Text

namespace Path

variable {base name : String} {fields fields' : List (List Char)}

/-! ## Parts of fields -/

/-- A field says nothing just if it is empty or a `.`. -/
lemma Part.ofField?_eq_none_iff {field : List Char} :
    Part.ofField? field = none ↔ field = [] ∨ field = ['.'] := by
  unfold Part.ofField?
  split
  · exact iff_of_true rfl (Or.inl rfl)
  · exact iff_of_true rfl (Or.inr rfl)
  · exact iff_of_false (by simp) (by simp)
  · rename_i hnil hdot _
    exact iff_of_false (by simp) (not_or.2 ⟨hnil, hdot⟩)

/-- No field stands for a `.`. -/
lemma Part.ofField?_ne_here (field : List Char) : Part.ofField? field ≠ some .here := by
  unfold Part.ofField?
  split <;> simp

/-- More fields add their parts. -/
lemma partsOf_append (hfields : fields ≠ []) (fields' : List (List Char)) :
    partsOf (fields ++ fields') = partsOf fields ++ fields'.filterMap Part.ofField? := by
  unfold partsOf
  rw [List.head?_append_of_ne_nil _ hfields, List.filterMap_append]
  split
  · exact List.cons_append
  · rfl

/-- An empty field at the end adds none. -/
lemma partsOf_concat_nil (hfields : fields ≠ []) : partsOf (fields ++ [[]]) = partsOf fields := by
  rw [partsOf_append hfields]
  exact List.append_nil _

/-- Without the `.` in front there are only the parts that fields stand for. -/
lemma filter_partsOf (fields : List (List Char)) :
    (partsOf fields).filter (· != .here) = fields.filterMap Part.ofField? := by
  have hkept : (fields.filterMap Part.ofField?).filter (· != .here) =
      fields.filterMap Part.ofField? := by
    refine List.filter_eq_self.2 fun part hpart => ?_
    obtain ⟨field, -, hfield⟩ := List.mem_filterMap.1 hpart
    exact bne_iff_ne.2 fun hhere => Part.ofField?_ne_here field (hhere ▸ hfield)
  unfold partsOf
  split
  · exact hkept
  · exact hkept

/-- A relative text that is not empty has a part. -/
lemma parts_parse_ne_nil (hbase : base.toList ≠ []) (hrelative : base.toList.head? ≠ some '/') :
    (parse base).parts ≠ [] := by
  obtain ⟨c, rest, htext⟩ := List.exists_cons_of_ne_nil hbase
  rw [htext] at hrelative
  have hc : ¬ c = '/' := fun h => hrelative (congrArg some h)
  obtain ⟨first, others, hsplit⟩ := List.exists_cons_of_ne_nil (List.splitOn_ne_nil '/' rest)
  have hfields : base.toList.splitOn '/' = (c :: first) :: others := by
    rw [htext, List.splitOn_cons_eq_if_modifyHead, if_neg (by simpa using hc), hsplit]
    rfl
  show partsOf (base.toList.splitOn '/') ≠ []
  rw [hfields, partsOf, List.filterMap_cons]
  split
  · exact List.cons_ne_nil _ _
  · rename_i hdot
    have hdot' : ¬ (c :: first) = ['.'] := fun h => hdot (congrArg some h)
    cases hpart : Part.ofField? (c :: first) with
    | none =>
      rcases Part.ofField?_eq_none_iff.1 hpart with h | h
      · exact absurd h (List.cons_ne_nil c first)
      · exact absurd h hdot'
    | some part => exact List.cons_ne_nil _ _

/-! ## Joined paths -/

/-- **Joining texts joins paths.** -/
lemma parse_joinText (base name : String) :
    parse (joinText base name) = (parse base).join (parse name) := by
  by_cases hname : name.toList.head? = some '/'
  · have habsolute : (parse name).isAbsolute = true := beq_iff_eq.2 hname
    rw [joinText, Text.joinAt_of_or (Or.inl hname), String.ofList_toList, join, if_pos habsolute]
  · have hrelative : ¬ (parse name).isAbsolute = true := fun h => hname (beq_iff_eq.1 h)
    rw [join, if_neg hrelative]
    by_cases hbase : base.toList = []
    · obtain rfl : base = "" := String.toList_eq_nil_iff.1 hbase
      rw [joinText, Text.joinAt_of_or (Or.inr hbase), String.ofList_toList]
      rfl
    · have hnonempty : ¬ (!(parse base).isAbsolute && (parse base).parts.isEmpty) = true := by
        rw [Bool.and_eq_true, Bool.not_eq_true', List.isEmpty_iff]
        rintro ⟨hstart, hparts⟩
        exact parts_parse_ne_nil hbase (fun h => by simp [parse, h] at hstart) hparts
      rw [if_neg hnonempty]
      obtain ⟨fields, hfields, hjoined⟩ := Text.splitOn_joinAt hbase hname
      have hparts : fields ≠ [] ∧ (parse base).parts = partsOf fields := by
        show fields ≠ [] ∧ partsOf (base.toList.splitOn '/') = _
        rcases hfields with hfields | hfields
        · rw [← hfields]
          exact ⟨List.splitOn_ne_nil '/' _, rfl⟩
        · have hne : fields ≠ [] := by
            rintro rfl
            have htext : ['/'].intercalate (base.toList.splitOn '/') = base.toList :=
              List.intercalate_splitOn '/'
            rw [hfields] at htext
            exact hbase htext.symm
          rw [hfields]
          exact ⟨hne, partsOf_concat_nil hne⟩
      rw [parse, joinText, String.toList_ofList, Text.head?_joinAt hbase hname, hjoined,
        partsOf_append hparts.1, hparts.2]
      congr 2
      exact (filter_partsOf _).symm

end Path

end CppDeps
