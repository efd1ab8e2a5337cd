import CppDeps.Text
import Mathlib.Data.List.TakeWhile
import Mathlib.Tactic

/-!
# Cutting and trimming

Texts are searched from their ends inwards.  What this leaves is said here of the text as it stands: the
part before the last `::` is followed by a `::` after which none starts (`Text.IsBeforeLastColons`), and
a trimmed text stands between two runs of the characters trimmed away (`Text.IsTrimmed`).
-/

namespace CppDeps

namespace Text

/-- One text is what another has before its last `::`. -/
def IsBeforeLastColons (s before : String) : Prop :=
  ∃ after, s.toList = before.toList ++ ':' :: ':' :: after ∧ ¬ [':', ':'] <:+: ':' :: after

/-- One text is another without the characters of class `p` at its two ends. -/
def IsTrimmed (p : Char → Bool) (s trimmed : String) : Prop :=
  ∃ lead trail, s.toList = lead ++ trimmed.toList ++ trail ∧ (∀ c ∈ lead ++ trail, p c = true) ∧
    (∀ c ∈ trimmed.toList.head?, p c = false) ∧ ∀ c ∈ trimmed.toList.getLast?, p c = false

/-! ## One character -/

/-- One character occurs in a list if it is an element of it. -/
lemma occursIn_singleton_iff {c : Char} {l : List Char} : occursIn [c] l = true ↔ c ∈ l := by
  induction l with
  | nil => exact iff_of_false Bool.false_ne_true List.not_mem_nil
  | cons d l ih =>
    rw [occursIn, Bool.or_eq_true, ih, List.isPrefixOf_iff_prefix, List.cons_prefix_cons,
      List.mem_cons, and_iff_left List.nil_prefix]

/-! ## The last colons -/

/-- The colons found in a reversed text are the first ones, also where three of them follow each
other. -/
lemma of_beyondColons_eq_some {l rest : List Char} (h : beyondColons l = some rest) :
    ∃ passed, l = passed ++ ':' :: ':' :: rest ∧ ¬ [':', ':'] <:+: passed ++ [':'] := by
  fun_induction beyondColons l with
  | case1 => exact absurd h (Option.some_ne_none rest).symm
  | case2 => exact absurd h (Option.some_ne_none rest).symm
  | case3 c d s hcolons =>
    obtain ⟨rfl, rfl⟩ := hcolons
    obtain rfl := Option.some.inj h
    exact ⟨[], rfl, by decide⟩
  | case4 c d s hcolons ih =>
    obtain ⟨passed, hpassed, hnone⟩ := ih h
    refine ⟨c :: passed, congrArg (c :: ·) hpassed, fun hinfix => ?_⟩
    rcases List.infix_cons_iff.1 hinfix with hstart | hlater
    · -- the two characters at the start would be `c` and `d`
      have hpassed' : passed ++ [':'] <+: d :: s := by
        rw [hpassed]
        exact (List.prefix_append_right_inj passed).2 ⟨':' :: rest, rfl⟩
      obtain ⟨hc, hrest⟩ := List.cons_prefix_cons.1 hstart
      have hd : ':' = d := (List.cons_prefix_cons.1 (hrest.trans hpassed')).1
      exact hcolons ⟨hc.symm, hd.symm⟩
    · exact hnone hlater

/-- Cutting a text at its last `::` gives what stands before it. -/
lemma isBeforeLastColons_of_eq_some {s before : String} (h : beforeLastColons s = some before) :
    IsBeforeLastColons s before := by
  obtain ⟨rest, hrest, rfl⟩ := Option.map_eq_some_iff.1 h
  obtain ⟨passed, hpassed, hnone⟩ := of_beyondColons_eq_some hrest
  refine ⟨passed.reverse, ?_, fun hinfix => hnone ?_⟩
  · have hreversed := congrArg List.reverse hpassed
    rw [List.reverse_reverse] at hreversed
    rw [hreversed, String.toList_ofList, List.reverse_append, List.reverse_cons, List.reverse_cons,
      List.append_assoc, List.append_assoc]
    rfl
  · rw [← List.reverse_infix, List.reverse_append]
    exact hinfix

/-! ## Trimming -/

/-- What is left when the first characters of a class are dropped starts with none of them. -/
lemma eq_false_of_mem_head?_dropWhile {p : Char → Bool} {l : List Char} {c : Char}
    (h : c ∈ (l.dropWhile p).head?) : p c = false := by
  have hnot := List.head?_dropWhile_not p l
  rw [Option.mem_def.1 h] at hnot
  exact hnot

/-- Trimming takes away what can be taken away at both ends, and nothing else. -/
lemma isTrimmed_trimBoth (p : Char → Bool) (s : String) : IsTrimmed p s (trimBoth p s) := by
  let rest := s.toList.dropWhile p
  let kept := (rest.reverse.dropWhile p).reverse
  let trail := (rest.reverse.takeWhile p).reverse
  have hrest : rest = kept ++ trail := by
    rw [← List.reverse_append, List.takeWhile_append_dropWhile, List.reverse_reverse]
  have htrimmed : (trimBoth p s).toList = kept := String.toList_ofList
  refine ⟨s.toList.takeWhile p, trail, ?_, fun c hc => ?_, fun c hc => ?_, fun c hc => ?_⟩
  · rw [htrimmed, List.append_assoc, ← hrest, List.takeWhile_append_dropWhile]
  · rcases List.mem_append.1 hc with hlead | htrail
    · exact List.mem_takeWhile_imp hlead
    · exact List.mem_takeWhile_imp (List.mem_reverse.1 htrail)
  · rw [htrimmed] at hc
    have hfirst : c ∈ rest.head? := by
      rw [hrest, List.head?_append, Option.mem_def.1 hc]
      exact Option.mem_some_self c
    exact eq_false_of_mem_head?_dropWhile hfirst
  · rw [htrimmed, List.getLast?_reverse] at hc
    exact eq_false_of_mem_head?_dropWhile hc

/-- A text that stands between characters of a class, and has none of them itself, is what trimming
leaves. -/
lemma trimBoth_eq_of_append {p : Char → Bool} {s : String} (lead : List Char)
    {kept trail : List Char} (hs : s.toList = lead ++ (kept ++ trail))
    (houter : ∀ c ∈ lead ++ trail, p c = true) (hkept : ∀ c ∈ kept, p c = false) :
    trimBoth p s = String.ofList kept := by
  have hlead : ∀ c ∈ lead, p c = true := fun c hc => houter c (List.mem_append_left _ hc)
  have htrail : ∀ c ∈ trail, p c = true := fun c hc => houter c (List.mem_append_right _ hc)
  rw [trimBoth, hs, List.dropWhile_append_of_pos hlead]
  cases kept with
  | nil =>
    rw [List.nil_append, List.dropWhile_eq_nil_iff.2 htrail]
    rfl
  | cons c kept =>
    have hback : (c :: kept).reverse.dropWhile p = (c :: kept).reverse := by
      rw [List.dropWhile_eq_self_iff]
      intro hlength
      rw [hkept _ (List.mem_reverse.1 (List.getElem_mem hlength))]
      exact Bool.false_ne_true
    have htrail' : ∀ c ∈ trail.reverse, p c = true := fun c hc => htrail c (List.mem_reverse.1 hc)
    rw [List.cons_append, List.dropWhile_cons_of_neg (by rw [hkept c List.mem_cons_self]; decide),
      ← List.cons_append, List.reverse_append, List.dropWhile_append_of_pos htrail', hback,
      List.reverse_reverse]

end Text

end CppDeps
