import CppDeps.Table
import Mathlib.Data.List.Nodup
import Mathlib.Tactic

/-!
# Look-up in tables

Since no key occurs twice, looking up a key finds the one entry that has it.  A key that is not there
yet comes to stand after all the others.
-/

namespace CppDeps

namespace Table

universe u

variable {α : Type u}

/-- Looking up a key finds its entry. -/
lemma get?_eq_some_iff (t : Table α) {key : String} {value : α} :
    t.get? key = some value ↔ (key, value) ∈ t.entries := by
  obtain ⟨entries, hnodup⟩ := t
  unfold get?
  induction entries with
  | nil => simp
  | cons entry rest ih =>
    rw [List.map_cons, List.nodup_cons] at hnodup
    by_cases hkey : key = entry.1
    · have hnew : (key, value) ∉ rest := fun h => hnodup.1 (hkey ▸ List.mem_map_of_mem h)
      have hlookup : (entry :: rest).lookup key = some entry.2 := by
        rw [List.lookup_cons, hkey, beq_self_eq_true]
      rw [hlookup, List.mem_cons, or_iff_left hnew, Option.some.injEq, Prod.ext_iff]
      exact ⟨fun h => ⟨hkey, h.symm⟩, fun h => h.2.symm⟩
    · have hlookup : (entry :: rest).lookup key = rest.lookup key := by
        rw [List.lookup_cons, beq_false_of_ne hkey]
      have hne : (key, value) ≠ entry := fun h => hkey (congrArg Prod.fst h)
      rw [hlookup, List.mem_cons, or_iff_right hne]
      exact ih hnodup.2

/-- A new key goes to the end. -/
lemma put_of_notMem {key : String} {entries : List (String × α)} (h : key ∉ entries.map Prod.fst)
    (value : α) : put key value entries = entries ++ [(key, value)] := by
  induction entries with
  | nil => rfl
  | cons entry rest ih =>
    rw [List.map_cons, List.mem_cons, not_or] at h
    rw [put, if_neg (Ne.symm h.1), ih h.2]
    rfl

/-- Erasing a key leaves the values of the others. -/
lemma get?_erase (t : Table α) (key key' : String) :
    (t.erase key).get? key' = if key' = key then none else t.get? key' := by
  refine Option.ext fun value => ?_
  rw [get?_eq_some_iff, erase, List.mem_filter, bne_iff_ne]
  split
  · rename_i h
    exact ⟨fun hmem => absurd h hmem.2, fun hnone => absurd hnone (by simp)⟩
  · rename_i h
    rw [get?_eq_some_iff]
    exact and_iff_left h

end Table

end CppDeps
