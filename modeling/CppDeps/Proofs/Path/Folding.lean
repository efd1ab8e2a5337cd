import CppDeps.Path
import Mathlib.Tactic

/-!
# Folded paths

Folding goes through the parts of a path with a stack, on which names lie above the `..`s that had no
name to take away (`Path.IsStack`).  So a folded path has some `..`s, none of them below the root, and
then names only (`Path.isFolded_normalize`), and such a path is folded already
(`Path.normalize_normalize`).  A path seen from a directory is folded by going on with the stack of the
directory, so the directory may as well be folded before (`Path.normalize_join`).
-/

namespace CppDeps

namespace Path

variable {isAbsolute : Bool} {stack parts : List Part} {names : List String} {p q : Path}

/-! ## Stacks -/

/-- A stack of folded parts, the innermost first: names, and below them some `..`s if there is no
root. -/
def IsStack (isAbsolute : Bool) (stack : List Part) : Prop :=
  ∃ (names : List String) (k : ℕ),
    stack = names.map Part.name ++ List.replicate k .up ∧ (isAbsolute = true → k = 0)

/-- Folding in one part leaves names above `..`s. -/
lemma IsStack.fold (h : IsStack isAbsolute stack) (part : Part) :
    IsStack isAbsolute (fold isAbsolute stack part) := by
  obtain ⟨names, k, rfl, hroot⟩ := h
  cases part with
  | here => exact ⟨names, k, rfl, hroot⟩
  | name text => exact ⟨text :: names, k, rfl, hroot⟩
  | up =>
    cases names with
    | cons text names => exact ⟨names, k, rfl, hroot⟩
    | nil =>
      -- there is no name to take away, so the path leaves its start unless that is the root
      cases isAbsolute with
      | true =>
        obtain rfl := hroot rfl
        exact ⟨[], 0, rfl, fun _ => rfl⟩
      | false =>
        refine ⟨[], k + 1, ?_, fun habsolute => absurd habsolute Bool.false_ne_true⟩
        cases k <;> rfl

/-- Folding in several parts leaves names above `..`s. -/
lemma IsStack.foldl_fold (h : IsStack isAbsolute stack) (parts : List Part) :
    IsStack isAbsolute (parts.foldl (Path.fold isAbsolute) stack) := by
  induction parts generalizing stack with
  | nil => exact h
  | cons part parts ih => exact ih (h.fold part)

/-- Names are folded in by putting them on the stack. -/
lemma foldl_fold_names (names : List String) (stack : List Part) :
    (names.map Part.name).foldl (fold isAbsolute) stack =
      (names.map Part.name).reverse ++ stack := by
  induction names generalizing stack with
  | nil => rfl
  | cons text names ih =>
    rw [List.map_cons, List.foldl_cons, ih, List.reverse_cons, List.append_assoc]
    rfl

/-- Where no name is left, a `..` stays, unless it would lead above the root. -/
lemma foldl_fold_replicate_up (k : ℕ) (hroot : isAbsolute = true → k = 0) :
    (List.replicate k Part.up).foldl (fold isAbsolute) [] = List.replicate k .up := by
  induction k with
  | zero => rfl
  | succ k ih =>
    obtain rfl : isAbsolute = false :=
      Bool.eq_false_iff.2 fun habsolute => absurd (hroot habsolute) (Nat.succ_ne_zero k)
    have hbelow := ih fun habsolute => absurd habsolute Bool.false_ne_true
    rw [List.replicate_succ', List.foldl_append, hbelow, ← List.replicate_succ']
    cases k <;> rfl

/-- As many `..`s as there are names on the stack take these away. -/
lemma foldl_fold_ups (names : List String) (stack : List Part) :
    (List.replicate names.length Part.up).foldl (fold isAbsolute) (names.map Part.name ++ stack) =
      stack := by
  induction names with
  | nil => rfl
  | cons text names ih => exact ih

/-- Folding in the parts of a stack, the innermost last, gives the stack. -/
lemma IsStack.foldl_fold_reverse (h : IsStack isAbsolute stack) :
    stack.reverse.foldl (Path.fold isAbsolute) [] = stack := by
  obtain ⟨names, k, rfl, hroot⟩ := h
  rw [List.reverse_append, List.reverse_replicate, List.foldl_append,
    foldl_fold_replicate_up k hroot, ← List.map_reverse, foldl_fold_names, List.map_reverse,
    List.reverse_reverse]

/-! ## Folded paths -/

/-- There is nothing left to fold in a path: it has some `..`s and then names, and below the root names
only. -/
def IsFolded (p : Path) : Prop :=
  ∃ (k : ℕ) (names : List String),
    p.parts = List.replicate k .up ++ names.map Part.name ∧ (p.isAbsolute = true → k = 0)

/-- The parts of a path, folded in one after another, are a stack. -/
lemma isStack_foldl_parts (p : Path) :
    IsStack p.isAbsolute (p.parts.foldl (fold p.isAbsolute) []) :=
  IsStack.foldl_fold ⟨[], 0, rfl, fun _ => rfl⟩ p.parts

/-- There is nothing left to fold in a folded path. -/
lemma isFolded_normalize (p : Path) : p.normalize.IsFolded := by
  obtain ⟨names, k, hstack, hroot⟩ := isStack_foldl_parts p
  refine ⟨k, names.reverse, ?_, hroot⟩
  rw [normalize, hstack, List.reverse_append, List.reverse_replicate, List.map_reverse]

/-- Folding in the parts of a folded path gives the stack of the path. -/
lemma foldl_fold_normalize (p : Path) :
    p.normalize.parts.foldl (fold p.isAbsolute) [] = p.parts.foldl (fold p.isAbsolute) [] :=
  (isStack_foldl_parts p).foldl_fold_reverse

/-- **Folding a folded path changes nothing.** -/
lemma normalize_normalize (p : Path) : p.normalize.normalize = p.normalize := by
  rw [normalize]
  show (⟨p.isAbsolute, (p.normalize.parts.foldl (fold p.isAbsolute) []).reverse⟩ : Path) = _
  rw [foldl_fold_normalize]
  rfl

/-- A path seen from a directory is folded by going on with the stack of the directory. -/
lemma normalize_join_of_relative (p : Path) (hq : q.isAbsolute = false) :
    (p.join q).normalize =
      ⟨p.isAbsolute,
        (q.parts.foldl (fold p.isAbsolute) (p.parts.foldl (fold p.isAbsolute) [])).reverse⟩ := by
  have hhere : ∀ stack, (q.parts.filter (· != .here)).foldl (fold p.isAbsolute) stack =
      q.parts.foldl (fold p.isAbsolute) stack := by
    intro stack
    rw [List.foldl_filter]
    refine List.foldl_ext _ _ stack fun stack part _ => ?_
    cases part <;> rfl
  rw [join, if_neg (by rw [hq]; exact Bool.false_ne_true)]
  split
  · rename_i hempty
    rw [Bool.and_eq_true, Bool.not_eq_true', List.isEmpty_iff] at hempty
    rw [normalize, hq, hempty.1, hempty.2]
    rfl
  · rw [normalize, List.foldl_append, hhere]

/-- **A directory may be folded before a path is joined to it.** -/
lemma normalize_join (p q : Path) : (p.join q).normalize = (p.normalize.join q).normalize := by
  cases hq : q.isAbsolute with
  | true => rw [join, join, if_pos hq, if_pos hq]
  | false =>
    rw [normalize_join_of_relative p hq, normalize_join_of_relative p.normalize hq]
    show _ = (⟨p.isAbsolute, (q.parts.foldl (fold p.isAbsolute)
      (p.normalize.parts.foldl (fold p.isAbsolute) [])).reverse⟩ : Path)
    rw [foldl_fold_normalize]

end Path

end CppDeps
