import CppDeps.Disk
import Mathlib.Tactic

/-!
# Ways through folders

A way leads from a folder into the folders below it, one name at a time, and a longer way is followed
piece by piece.  In an ordered folder a look-up finds the one entry of its name, so an entry can be said
to be in the folder or to be what a look-up gives, whichever is at hand.
-/

namespace CppDeps

namespace Entry

variable {entry found : Entry} {name : EntryName} {way rest : Way} {canAdd : Bool}
  {listed : List (EntryName × Entry)}

/-! ## Looking up names -/

/-- An entry that a look-up finds is in the folder. -/
lemma mem_of_lookup (h : listed.lookup name = some entry) : (name, entry) ∈ listed := by
  obtain ⟨before, after, rfl, -⟩ := List.lookup_eq_some_iff.1 h
  exact List.mem_append_right before List.mem_cons_self

/-- **Looking up a name** among ascending ones finds the one entry that has it. -/
lemma lookup_eq_some_iff (h : listed.Pairwise fun held held' => held.1 < held'.1) :
    listed.lookup name = some entry ↔ (name, entry) ∈ listed := by
  refine ⟨mem_of_lookup, fun hmem => ?_⟩
  obtain ⟨before, after, rfl⟩ := List.mem_iff_append.1 hmem
  refine List.lookup_eq_some_iff.2 ⟨before, after, rfl, fun other hother => ?_⟩
  have hlt : other.1 < name :=
    (List.pairwise_append.1 h).2.2 other hother (name, entry) List.mem_cons_self
  exact bne_iff_ne.2 (EntryName.ne_of_lt hlt).symm

/-- A folder is ordered if its entries ascend and are ordered. -/
lemma ordered_folder_iff : (folder canAdd listed).Ordered ↔
    (listed.Pairwise fun held held' => held.1 < held'.1) ∧ ∀ held ∈ listed, held.2.Ordered := by
  rw [ordered_iff]
  refine and_congr_right fun hpairwise => ?_
  constructor
  · exact fun h held hheld => h held.1 held.2 ((lookup_eq_some_iff hpairwise).2 hheld)
  · exact fun h name found hfound => h (name, found) (mem_of_lookup hfound)

/-! ## Ways -/

/-- A way that goes on is followed piece by piece. -/
lemma below?_append (way rest : Way) (entry : Entry) :
    entry.below? (way ++ rest) = (entry.below? way).bind (below? rest) := by
  induction way generalizing entry with
  | nil => rfl
  | cons name way ih =>
    rw [List.cons_append, below?, below?, Option.bind_assoc]
    exact congrArg _ (funext ih)

/-- A way of one name is a look-up. -/
lemma below?_singleton (name : EntryName) (entry : Entry) :
    entry.below? [name] = entry.entries.lookup name := by
  rw [below?]
  cases entry.entries.lookup name <;> rfl

/-- The first step of a way is a look-up. -/
lemma below?_cons_eq_some_iff : entry.below? (name :: way) = some found ↔
    ∃ next, entry.entries.lookup name = some next ∧ next.below? way = some found :=
  Option.bind_eq_some_iff

/-- What has an entry is a folder. -/
lemma isFolder_of_lookup (h : entry.entries.lookup name = some found) : entry.isFolder = true := by
  cases entry with
  | folder canAdd listed => rfl
  | _ => exact absurd h (by simp [entries])

/-- What a way leads on from is a folder. -/
lemma isFolder_of_below? (hway : way ≠ []) (h : entry.below? way = some found) :
    entry.isFolder = true := by
  obtain ⟨name, rest, rfl⟩ := List.exists_cons_of_ne_nil hway
  obtain ⟨next, hnext, -⟩ := below?_cons_eq_some_iff.1 h
  exact isFolder_of_lookup hnext

/-- A folder has entries. -/
lemma isFolder_iff : entry.isFolder = true ↔ ∃ canAdd listed, entry = folder canAdd listed := by
  cases entry with
  | folder canAdd listed => exact iff_of_true rfl ⟨canAdd, listed, rfl⟩
  | _ => simp [isFolder]

end Entry

namespace Disk

variable {disk : Disk} {directory way : Way} {entry : Entry} {name : EntryName}

/-- Does a way lead to a folder? -/
def IsFolder (disk : Disk) (way : Way) : Prop :=
  ∃ canAdd entries, disk.at? way = some (.folder canAdd entries)

/-- A way that goes on from an entry is followed from there. -/
lemma at?_append (h : disk.at? directory = some entry) (way : Way) :
    disk.at? (directory ++ way) = entry.below? way := by
  rw [at?, Entry.below?_append, ← at?, h]
  rfl

/-- One more name on a way is looked up in the folder. -/
lemma at?_concat (h : disk.at? directory = some entry) (name : EntryName) :
    disk.at? (directory ++ [name]) = entry.entries.lookup name := by
  rw [at?_append h, Entry.below?_singleton]

/-- What is in the file system is ordered. -/
lemma ordered_of_at? (h : disk.at? way = some entry) : entry.Ordered :=
  disk.ordered.below h

end Disk

end CppDeps
