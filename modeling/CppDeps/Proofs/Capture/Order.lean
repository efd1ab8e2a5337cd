import CppDeps.Capture
import Mathlib.Data.List.Perm.Basic
import Mathlib.Tactic

/-!
# Matches in the order of their captures

The captures of all matches of a category are merged into one list.  Each match has its outer node
captured first and its name some time later, with captures of other matches between the two.  Merging
takes captures until none is left, so the name of every match is captured once: listed in the order in
which their names are captured (`Query.capturedMatches`), the matches are those of the category, and
their names are the captured ones.
-/

namespace CppDeps

namespace PendingMatch

variable {p : PendingMatch} {pending rest : List PendingMatch}

/-! ## Taking one capture -/

/-- The number of captures still to come from a match. -/
def due (p : PendingMatch) : Nat :=
  if p.outerTaken then 1 else 2

/-- The match of a capture, if that is the capture of its name. -/
def completed (p : PendingMatch) : List Match :=
  if p.outerTaken then [p.found] else []

/-- Taking a capture leaves one less to come. -/
lemma due_eq (p : PendingMatch) : p.due = 1 + (p.advance.toList.map due).sum := by
  obtain ⟨found, outerTaken⟩ := p
  cases outerTaken <;> rfl

/-- Either the name of a match is taken, or the match stays pending. -/
lemma completed_append_advance (p : PendingMatch) :
    p.completed ++ p.advance.toList.map found = [p.found] := by
  obtain ⟨found, outerTaken⟩ := p
  cases outerTaken <;> rfl

/-- A capture is that of a name if the outer node was taken before. -/
lemma label_capture_beq (category : Category) (p : PendingMatch) :
    ((p.capture category).label == category.nameLabel) = p.outerTaken := by
  obtain ⟨found, outerTaken⟩ := p
  cases outerTaken <;> cases category <;> rfl

/-- There is a capture to take as long as some match is pending. -/
lemma takeFirst_eq_none_iff : takeFirst pending = none ↔ pending = [] := by
  cases pending with
  | nil => exact iff_of_true rfl rfl
  | cons p pending =>
    refine iff_of_false ?_ (List.cons_ne_nil p pending)
    unfold takeFirst
    split
    · exact Option.some_ne_none _
    · split
      · exact Option.some_ne_none _
      · exact Option.some_ne_none _

/-- Taking a capture changes one of the pending matches and no others. -/
lemma exists_others_of_takeFirst (h : takeFirst pending = some (p, rest)) :
    ∃ others, pending.Perm (p :: others) ∧ rest.Perm (p.advance.toList ++ others) := by
  induction pending generalizing p rest with
  | nil => exact absurd h (by simp [takeFirst])
  | cons q pending ih =>
    unfold takeFirst at h
    cases hfirst : takeFirst pending with
    | none =>
      rw [hfirst] at h
      obtain ⟨rfl, rfl⟩ := Prod.mk.inj (Option.some.inj h)
      rw [takeFirst_eq_none_iff.1 hfirst]
      exact ⟨[], List.Perm.refl _, (List.append_nil _).symm ▸ List.Perm.refl _⟩
    | some first =>
      obtain ⟨r, rest'⟩ := first
      obtain ⟨others, hpending, hrest⟩ := ih hfirst
      rw [hfirst] at h
      by_cases hprecedes : r.precedes q = true
      · simp only [if_pos hprecedes] at h
        obtain ⟨rfl, rfl⟩ := Prod.mk.inj (Option.some.inj h)
        refine ⟨q :: others, ?_, ?_⟩
        · exact (hpending.cons q).trans (List.Perm.swap r q others)
        · exact (hrest.cons q).trans List.perm_middle.symm
      · simp only [if_neg hprecedes] at h
        obtain ⟨rfl, rfl⟩ := Prod.mk.inj (Option.some.inj h)
        exact ⟨pending, List.Perm.refl _, List.Perm.refl _⟩

/-! ## Taking all captures -/

/-- The pending matches that captures are taken from, one for each capture. -/
def taken : Nat → List PendingMatch → List PendingMatch
  | 0, _ => []
  | count + 1, pending =>
    match takeFirst pending with
    | none => []
    | some (p, rest) => p :: taken count rest

/-- Merging lists the captures taken. -/
lemma merge_eq_map_taken (category : Category) (count : Nat) (pending : List PendingMatch) :
    merge category count pending = (taken count pending).map (capture category) := by
  induction count generalizing pending with
  | zero => rfl
  | succ count ih =>
    unfold merge taken
    cases takeFirst pending with
    | none => rfl
    | some first => exact congrArg (capture category first.1 :: ·) (ih first.2)

/-- If captures are taken until none is left, the name of each pending match is taken once. -/
lemma flatMap_completed_taken {count : Nat} (hcount : (pending.map due).sum ≤ count) :
    ((taken count pending).flatMap completed).Perm (pending.map found) := by
  have hpos : ∀ p : PendingMatch, 0 < p.due := by
    intro p
    rw [due_eq]
    omega
  induction count generalizing pending with
  | zero =>
    cases pending with
    | nil => exact List.Perm.refl _
    | cons p pending =>
      rw [List.map_cons, List.sum_cons] at hcount
      exact absurd (hpos p) (by omega)
  | succ count ih =>
    unfold taken
    cases hfirst : takeFirst pending with
    | none =>
      rw [takeFirst_eq_none_iff.1 hfirst]
      exact List.Perm.refl _
    | some first =>
      obtain ⟨p, rest⟩ := first
      obtain ⟨others, hpending, hrest⟩ := exists_others_of_takeFirst hfirst
      have hdue : (rest.map due).sum ≤ count := by
        have hbefore := (hpending.map due).sum_eq
        have hafter := (hrest.map due).sum_eq
        rw [List.map_cons, List.sum_cons, due_eq] at hbefore
        rw [List.map_append, List.sum_append] at hafter
        omega
      calc
        List.Perm (p.completed ++ (taken count rest).flatMap completed)
            (p.completed ++ rest.map found) := (ih hdue).append_left _
        List.Perm _ (p.completed ++ (p.advance.toList.map found ++ others.map found)) := by
          rw [← List.map_append]
          exact (hrest.map found).append_left _
        _ = p.found :: others.map found := by
          rw [← List.append_assoc, completed_append_advance, List.singleton_append]
        List.Perm _ (pending.map found) := (hpending.map found).symm

end PendingMatch

namespace Query

variable {category : Category} {tree : Tree Node}

/-! ## Matches by their names -/

/-- The matches of a category, in the order in which their names are captured. -/
def capturedMatches (category : Category) (tree : Tree Node) : List Match :=
  let pending := (allMatches category tree).map fun found => ⟨found, false⟩
  (PendingMatch.taken (2 * pending.length) pending).flatMap PendingMatch.completed

/-- Each match has its name captured once. -/
lemma capturedMatches_perm (category : Category) (tree : Tree Node) :
    (capturedMatches category tree).Perm (allMatches category tree) := by
  have hdue : ∀ found : List Match,
      ((found.map fun found => (⟨found, false⟩ : PendingMatch)).map PendingMatch.due).sum =
        2 * found.length := by
    intro found
    induction found with
    | nil => rfl
    | cons first found ih =>
      have hfirst : PendingMatch.due ⟨first, false⟩ = 2 := rfl
      rw [List.map_cons, List.map_cons, List.sum_cons, ih, hfirst, List.length_cons]
      omega
  have hperm := PendingMatch.flatMap_completed_taken (hdue (allMatches category tree)).le
  rw [List.map_map] at hperm
  rw [capturedMatches, List.length_map]
  exact hperm.trans (List.Perm.of_eq (List.map_id _))

/-- The captured names of a category are those of its matches. -/
lemma named_captureSet (category : Category) (tree : Tree Node) :
    (captureSet tree).named category = (capturedMatches category tree).map Match.name := by
  have hcaptures : (captureSet tree).captures category = captures category tree := rfl
  have hnames : ∀ taken : List PendingMatch,
      ((taken.map (PendingMatch.capture category)).filter
          fun capture => capture.label == category.nameLabel).map Capture.place =
        (taken.flatMap PendingMatch.completed).map Match.name := by
    intro taken
    induction taken with
    | nil => rfl
    | cons p taken ih =>
      rw [List.map_cons, List.filter_cons, PendingMatch.label_capture_beq, List.flatMap_cons,
        List.map_append, ← ih]
      obtain ⟨found, outerTaken⟩ := p
      cases outerTaken <;> rfl
  rw [CaptureSet.named, hcaptures, captures, PendingMatch.merge_eq_map_taken]
  exact hnames _

end Query

end CppDeps
