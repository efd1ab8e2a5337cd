import CppDeps.Proofs.Disk.Folders

/-!
# The files below a folder

The files below a folder are listed by going through its entries in turn, and through those of a folder
among them before the next entry.  Folders with a name that is to be skipped are passed over, and so are
links.  So the list has exactly the files that a way leads to without meeting such a folder
(`Disk.mem_filesOf_iff`), and since the names in each folder ascend, the ways in the list ascend name by
name (`Disk.pairwise_filesOf`): two ways are compared at the first name in which they differ.
-/

namespace CppDeps

/-- Induction on folders inside each other: what holds of all that is no folder, and of a folder if it
holds of its entries, holds of all entries. -/
theorem Entry.induction {motive : Entry → Prop} (file : ∀ stored, motive (.file stored))
    (folder : ∀ canAdd listed, (∀ held ∈ listed, motive held.2) → motive (.folder canAdd listed))
    (link : ∀ target, motive (.link target)) (special : motive .special) :
    ∀ entry, motive entry
  | .file stored => file stored
  | .folder canAdd listed =>
    folder canAdd listed fun held _ => Entry.induction file folder link special held.2
  | .link target => link target
  | .special => special
termination_by entry => sizeOf entry
decreasing_by
  rename_i hheld
  have hmem : sizeOf held < sizeOf listed := List.sizeOf_lt_of_mem hheld
  have hpair : sizeOf held.2 < sizeOf held := by
    obtain ⟨name, entry⟩ := held
    have hsize : sizeOf (name, entry) = 1 + sizeOf name + sizeOf entry := Prod.mk.sizeOf_spec name entry
    dsimp only
    omega
  rw [Entry.folder.sizeOf_spec]
  omega

namespace Disk

variable {skip : EntryName → Bool} {name : EntryName} {entry : Entry} {stored : StoredFile}
  {way : Way}

/-! ## Entry by entry -/

/-- The files of one entry of a folder, with their ways from that folder. -/
def filesUnder (skip : EntryName → Bool) (held : EntryName × Entry) : List (Way × StoredFile) :=
  if held.2.isFolder && skip held.1 then []
  else (filesOf skip [] held.2).map (Prod.map (held.1 :: ·) id)

/-- The way to an entry stands in front of the ways to its files. -/
lemma filesOf_eq (skip : EntryName → Bool) (way : Way) (entry : Entry) :
    filesOf skip way entry = (filesOf skip [] entry).map (Prod.map (way ++ ·) id) := by
  induction entry using Entry.induction generalizing way with
  | file stored => simp [filesOf]
  | link target => rfl
  | special => rfl
  | folder canAdd listed ih =>
    rw [filesOf, filesOf]
    induction listed with
    | nil => rfl
    | cons held listed ihlisted =>
      obtain ⟨name, entry⟩ := held
      have hentry := fun way => ih (name, entry) List.mem_cons_self way
      rw [filesAmong, filesAmong, List.map_append,
        ← ihlisted fun held hheld => ih held (List.mem_cons_of_mem _ hheld)]
      split
      · rfl
      · rw [hentry (way ++ [name]), hentry ([] ++ [name]), List.map_map]
        congr 1
        refine List.map_congr_left fun file _ => ?_
        exact Prod.ext (List.append_assoc way [name] file.1) rfl

/-- The files of a folder are those of its entries. -/
lemma filesOf_folder (skip : EntryName → Bool) (canAdd : Bool) (listed : List (EntryName × Entry)) :
    filesOf skip [] (.folder canAdd listed) = listed.flatMap (filesUnder skip) := by
  rw [filesOf]
  induction listed with
  | nil => rfl
  | cons held listed ih =>
    obtain ⟨name, entry⟩ := held
    rw [filesAmong, ih, List.flatMap_cons, filesUnder, filesOf_eq skip ([] ++ [name])]
    rfl

/-- The ways to the files of an entry start with its name. -/
lemma mem_filesUnder_iff {held : EntryName × Entry} : (way, stored) ∈ filesUnder skip held ↔
    ∃ rest, way = held.1 :: rest ∧ (held.2.isFolder = true → skip held.1 = false) ∧
      (rest, stored) ∈ filesOf skip [] held.2 := by
  rw [filesUnder]
  cases hskip : held.2.isFolder && skip held.1 with
  | true =>
    rw [Bool.and_eq_true] at hskip
    rw [if_pos rfl]
    refine iff_of_false List.not_mem_nil ?_
    rintro ⟨rest, -, hname, -⟩
    exact absurd hskip.2 (by simp [hname hskip.1])
  | false =>
    rw [Bool.and_eq_false_imp] at hskip
    rw [if_neg Bool.false_ne_true, List.mem_map]
    constructor
    · rintro ⟨⟨rest, stored⟩, hmem, heq⟩
      obtain ⟨rfl, rfl⟩ := Prod.mk.inj heq
      exact ⟨rest, rfl, hskip, hmem⟩
    · rintro ⟨rest, rfl, -, hmem⟩
      exact ⟨(rest, stored), hmem, rfl⟩

/-- The files that are listed below an entry are those of the entries that it has. -/
lemma mem_filesOf_cons_iff : (name :: way, stored) ∈ filesOf skip [] entry ↔
    ∃ found, (name, found) ∈ entry.entries ∧ (found.isFolder = true → skip name = false) ∧
      (way, stored) ∈ filesOf skip [] found := by
  cases entry with
  | folder canAdd listed =>
    rw [filesOf_folder, List.mem_flatMap]
    constructor
    · rintro ⟨⟨first, found⟩, hmem, hfile⟩
      obtain ⟨rest, hway, hskip, hrest⟩ := mem_filesUnder_iff.1 hfile
      obtain ⟨rfl, rfl⟩ := List.cons.inj hway
      exact ⟨found, hmem, hskip, hrest⟩
    · rintro ⟨found, hmem, hskip, hrest⟩
      exact ⟨(name, found), hmem, mem_filesUnder_iff.2 ⟨way, rfl, hskip, hrest⟩⟩
  | _ => simp [filesOf, Entry.entries]

/-- Without a step only a file is reached. -/
lemma nil_mem_filesOf_iff : ([], stored) ∈ filesOf skip [] entry ↔ entry = .file stored := by
  cases entry with
  | folder canAdd listed =>
    rw [filesOf_folder, List.mem_flatMap]
    refine iff_of_false ?_ (by simp)
    rintro ⟨held, -, hfile⟩
    obtain ⟨rest, hnil, -⟩ := mem_filesUnder_iff.1 hfile
    exact absurd hnil (by simp)
  | file other => simp [filesOf, eq_comm]
  | link target => simp [filesOf]
  | special => simp [filesOf]

/-! ## Which files are listed -/

/-- **The files that are listed** are those that a way leads to on which no folder is to be skipped. -/
theorem mem_filesOf_iff (h : entry.Ordered) : (way, stored) ∈ filesOf skip [] entry ↔
    entry.below? way = some (.file stored) ∧ ∀ name ∈ way.dropLast, skip name = false := by
  induction way generalizing entry with
  | nil => simp [nil_mem_filesOf_iff, Entry.below?]
  | cons name way ih =>
    obtain ⟨hentries, hbelow⟩ := Entry.ordered_iff.1 h
    rw [mem_filesOf_cons_iff, Entry.below?_cons_eq_some_iff]
    -- the name is skipped if it stands for a folder, and it stands for one if the way goes on
    have hname : ∀ {found : Entry}, found.below? way = some (.file stored) →
        ((found.isFolder = true → skip name = false) ∧ (∀ other ∈ way.dropLast, skip other = false) ↔
          ∀ other ∈ (name :: way).dropLast, skip other = false) := by
      intro found hfound
      by_cases hway : way = []
      · subst hway
        obtain rfl : found = .file stored := Option.some.inj hfound
        simp [Entry.isFolder]
      · rw [List.dropLast_cons_of_ne_nil hway, List.forall_mem_cons,
          imp_iff_right (Entry.isFolder_of_below? hway hfound)]
    constructor
    · rintro ⟨found, hmem, hskip, hfile⟩
      have hlookup := (Entry.lookup_eq_some_iff hentries).2 hmem
      obtain ⟨hfound, hrest⟩ := (ih (hbelow name found hlookup)).1 hfile
      exact ⟨⟨found, hlookup, hfound⟩, (hname hfound).1 ⟨hskip, hrest⟩⟩
    · rintro ⟨⟨found, hlookup, hfound⟩, hskip⟩
      obtain ⟨hfolder, hrest⟩ := (hname hfound).2 hskip
      exact ⟨found, Entry.mem_of_lookup hlookup, hfolder,
        (ih (hbelow name found hlookup)).2 ⟨hfound, hrest⟩⟩

/-! ## In which order they are listed -/

/-- **The files are listed in ascending order of their ways**, name by name. -/
theorem pairwise_filesOf (h : entry.Ordered) :
    (filesOf skip [] entry).Pairwise fun file file' => file.1 < file'.1 := by
  induction entry using Entry.induction with
  | file stored => exact List.pairwise_singleton _ _
  | link target => exact List.Pairwise.nil
  | special => exact List.Pairwise.nil
  | folder canAdd listed ih =>
    obtain ⟨hlisted, hbelow⟩ := Entry.ordered_folder_iff.1 h
    rw [filesOf_folder, List.pairwise_flatMap]
    constructor
    · intro held hheld
      rw [filesUnder]
      split
      · exact List.Pairwise.nil
      · exact List.pairwise_map.2
          ((ih held hheld (hbelow held hheld)).imp fun hlt => List.Lex.cons hlt)
    · refine hlisted.imp fun {held held'} hlt => ?_
      rintro ⟨way, stored⟩ hfile ⟨way', stored'⟩ hfile'
      obtain ⟨rest, rfl, -⟩ := mem_filesUnder_iff.1 hfile
      obtain ⟨rest', rfl, -⟩ := mem_filesUnder_iff.1 hfile'
      exact List.Lex.rel hlt

end Disk

end CppDeps
