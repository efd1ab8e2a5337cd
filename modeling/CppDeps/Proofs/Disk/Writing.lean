import CppDeps.Proofs.Disk.Following

/-!
# Writing a file

A file that is written under a name next to a path goes into the folder where the path leads, unless the
name stands for a link (`Disk.resolve_join_iff`).  At every other way the same is seen as before: nothing, a
file with its content, a link, or a folder (`Disk.sameOff_putFile`).  Two file systems that are the same in
this sense off one way lead every path alike that does not end there (`Disk.SameOff.leads`), since neither a
folder nor a link is at that way.

Writing a file over another one gives what writing it alone gives (`Disk.put_put`).  So a second writing
of the same content ends as the first one did, with the same file system and with the same fault, if there
was one (`Disk.write_join_cases`).
-/

namespace CppDeps

namespace Entry

variable {name : EntryName} {new entry found : Entry} {way other directory : Way}
  {listed : List (EntryName × Entry)}

/-! ## Setting an entry again -/

/-- An entry is set in place of the first one if that has the same name. -/
lemma setEntry_cons_self (name : EntryName) (new old : Entry) (rest : List (EntryName × Entry)) :
    setEntry name new ((name, old) :: rest) = (name, new) :: rest := by
  rw [setEntry, if_neg (EntryName.lt_irrefl name), if_neg (EntryName.lt_irrefl name)]

/-- An entry that is set twice is what it was set to last. -/
lemma setEntry_setEntry (name : EntryName) (new old : Entry) (listed : List (EntryName × Entry)) :
    setEntry name new (setEntry name old listed) = setEntry name new listed := by
  induction listed with
  | nil => exact setEntry_cons_self name new old []
  | cons first listed ih =>
    rw [setEntry, setEntry]
    split_ifs with hbefore hafter
    · exact setEntry_cons_self name new old (first :: listed)
    · rw [setEntry, if_neg hbefore, if_pos hafter, ih]
    · exact setEntry_cons_self name new old listed

/-- What is put at a way twice is what was put there last. -/
lemma put_put (new old : Entry) (way : Way) (entry : Entry) :
    put new way (put old way entry) = put new way entry := by
  induction way generalizing entry with
  | nil => rfl
  | cons name way ih =>
    rw [put, put, put, entries, lookup_setEntry, if_pos rfl, Option.getD_some, setEntry_setEntry, ih]
    rfl

/-- What is put at a way is there. -/
lemma below?_put_self (new : Entry) (way : Way) (entry : Entry) :
    (put new way entry).below? way = some new := by
  induction way generalizing entry with
  | nil => rfl
  | cons name way ih =>
    rw [put, below?, entries, lookup_setEntry, if_pos rfl]
    exact ih _

/-! ## What is seen afterwards -/

/-- What is seen of an entry without going into it: of a folder that it is one. -/
def face : Entry → Entry
  | folder canAdd _ => folder canAdd []
  | entry => entry

/-- What is no folder is seen as it is. -/
lemma map_face_eq_some_iff {held : Option Entry} (h : found.isFolder = false) :
    held.map face = some found ↔ held = some found := by
  cases held with
  | none => simp
  | some entry =>
    rw [Option.map_some, Option.some_inj, Option.some_inj]
    cases entry with
    | folder canAdd listed =>
      refine iff_of_false ?_ ?_ <;>
      · rintro rfl
        exact Bool.false_ne_true h.symm
    | _ => exact Iff.rfl

/-- Nothing is below what is no folder. -/
lemma below?_eq_none (h : entry.isFolder = false) (hway : way ≠ []) : entry.below? way = none := by
  rw [Option.eq_none_iff_forall_ne_some]
  intro found hfound
  rw [isFolder_of_below? hway hfound] at h
  exact absurd h (by simp)

/-- What is put in the place of something that is no folder, and is none itself, is all that is seen to
change. -/
lemma face_below?_put (hfolder : ∃ around, entry.below? directory = some around ∧ around.isFolder = true)
    (hold : ∀ old, entry.below? (directory ++ [name]) = some old → old.isFolder = false)
    (hnew : new.isFolder = false) (hother : other ≠ directory ++ [name]) :
    ((put new (directory ++ [name]) entry).below? other).map face = (entry.below? other).map face := by
  induction directory generalizing entry other with
  | nil =>
    obtain ⟨around, haround, hisFolder⟩ := hfolder
    obtain rfl : entry = around := Option.some.inj haround
    obtain ⟨canAdd, listed, rfl⟩ := isFolder_iff.1 hisFolder
    rw [List.nil_append, put, put]
    cases other with
    | nil => rfl
    | cons first rest =>
      rw [below?, below?, entries, entries, lookup_setEntry]
      split
      · -- the way goes on below what was put, and below what was there
        rename_i hfirst
        subst hfirst
        have hrest : rest ≠ [] := fun hnil => hother (by rw [hnil]; rfl)
        rw [Option.bind_some, below?_eq_none hnew hrest]
        cases hlookup : listed.lookup first with
        | none => rfl
        | some old =>
          have hold' : old.isFolder = false := by
            refine hold old ?_
            rw [List.nil_append, below?_singleton]
            exact hlookup
          rw [Option.bind_some, below?_eq_none hold' hrest]
      · rfl
  | cons first directory ih =>
    obtain ⟨around, haround, hisFolder⟩ := hfolder
    obtain ⟨next, hnext, hrest⟩ := below?_cons_eq_some_iff.1 haround
    obtain ⟨canAdd, listed, rfl⟩ := isFolder_iff.1 (isFolder_of_lookup hnext)
    have hlookup : listed.lookup first = some next := hnext
    rw [List.cons_append, put, entries, hlookup, Option.getD_some]
    cases other with
    | nil => rfl
    | cons start rest =>
      rw [below?, below?, entries, entries, lookup_setEntry]
      split
      · rename_i hstart
        subst hstart
        rw [hlookup, Option.bind_some, Option.bind_some]
        refine ih ⟨around, hrest, hisFolder⟩ (fun old hbelow => hold old ?_) fun heq => ?_
        · rw [List.cons_append, below?, hnext]
          exact hbelow
        · exact hother (by rw [heq]; rfl)
      · rfl

end Entry

namespace Disk

variable {disk disk' : Disk} {creating : Bool} {links left : Nat} {name : EntryName}
  {stored : StoredFile} {directory place way last next : Way} {field root : OsText}
  {fields rest : List OsText} {content : ByteArray}

/-! ## Putting files -/

/-- The root after something was put at a way. -/
lemma root_put (disk : Disk) (hway : way ≠ []) (new : Entry) (hnew : new.Ordered) :
    (disk.put way new hnew).root = Entry.put new way disk.root := by
  obtain ⟨name, rest, rfl⟩ := List.exists_cons_of_ne_nil hway
  rfl

/-- A file that is put at a way twice is the one that was put there last. -/
lemma putFile_putFile (disk : Disk) (way : Way) (stored old : StoredFile) :
    (disk.putFile way old).putFile way stored = disk.putFile way stored := by
  cases way with
  | nil => rfl
  | cons name way => exact Disk.ext (Entry.put_put _ _ _ _) rfl rfl

/-- A file that is put at a way is there. -/
lemma at?_putFile_self (disk : Disk) (hway : way ≠ []) (stored : StoredFile) :
    (disk.putFile way stored).at? way = some (.file stored) := by
  rw [at?, putFile, root_put disk hway]
  exact Entry.below?_put_self _ _ _

/-- Putting a file leaves the working directory and the bound on files as they are. -/
lemma putFile_here_largest (disk : Disk) (way : Way) (stored : StoredFile) :
    (disk.putFile way stored).here = disk.here ∧ (disk.putFile way stored).largest = disk.largest := by
  cases way <;> exact ⟨rfl, rfl⟩

/-! ## Sameness off one way -/

/-- Two file systems are the same off a way: the same is seen in them at every other way, and at this one there
are only files in them. -/
structure SameOff (place : Way) (disk disk' : Disk) : Prop where
  here_eq : disk'.here = disk.here
  face_eq : ∀ way, way ≠ place → (disk'.at? way).map Entry.face = (disk.at? way).map Entry.face
  file : ∀ entry, disk.at? place = some entry ∨ disk'.at? place = some entry →
    ∃ stored, entry = .file stored

namespace SameOff

/-- Something is at the other ways in one if it is in the other. -/
lemma isSome_iff (h : SameOff place disk disk') (hway : way ≠ place) :
    (disk'.at? way).isSome = true ↔ (disk.at? way).isSome = true := by
  rw [← Option.isSome_map (f := Entry.face), h.face_eq way hway, Option.isSome_map]

/-- The same files are at the other ways. -/
lemma file_iff (h : SameOff place disk disk') (hway : way ≠ place) :
    disk'.at? way = some (.file stored) ↔ disk.at? way = some (.file stored) := by
  rw [← Entry.map_face_eq_some_iff rfl, h.face_eq way hway, Entry.map_face_eq_some_iff rfl]

/-- The same links are at all ways. -/
lemma link_iff (h : SameOff place disk disk') {target : OsText} :
    disk'.at? way = some (.link target) ↔ disk.at? way = some (.link target) := by
  by_cases hway : way = place
  · subst hway
    have hnot : ∀ entry, disk.at? way = some entry ∨ disk'.at? way = some entry →
        entry ≠ .link target := by
      rintro entry hentry rfl
      obtain ⟨stored, hstored⟩ := h.file _ hentry
      exact absurd hstored (by simp)
    exact iff_of_false (fun hlink => hnot _ (Or.inr hlink) rfl) fun hlink => hnot _ (Or.inl hlink) rfl
  · rw [← Entry.map_face_eq_some_iff rfl, h.face_eq way hway, Entry.map_face_eq_some_iff rfl]

/-- The place itself is no folder. -/
lemma ne_of_isFolder (h : SameOff place disk disk') (hway : disk.IsFolder way) : way ≠ place := by
  rintro rfl
  obtain ⟨canAdd, entries, hentries⟩ := hway
  obtain ⟨stored, hstored⟩ := h.file _ (Or.inl hentries)
  exact absurd hstored (by simp)

/-- What is a folder in one is a folder in the other. -/
lemma isFolder (h : SameOff place disk disk') (hway : disk.IsFolder way) : disk'.IsFolder way := by
  have hne := h.ne_of_isFolder hway
  obtain ⟨canAdd, entries, hentries⟩ := hway
  have hface := h.face_eq way hne
  rw [hentries, Option.map_some, Option.map_eq_some_iff] at hface
  obtain ⟨entry, hentry, hseen⟩ := hface
  cases entry with
  | folder canAdd' entries' => exact ⟨canAdd', entries', hentry⟩
  | _ => exact absurd hseen (by simp [Entry.face])

/-- A step that leads elsewhere is the same in both. -/
lemma follow (h : SameOff place disk disk') (hfollow : disk.follow false way field rest = .ok next)
    (hnext : next ≠ place) : disk'.follow false way field rest = .ok next := by
  obtain ⟨hfolder, hlead, hsome⟩ := follow_false_eq_ok_iff.1 hfollow
  exact follow_false_eq_ok_iff.2 ⟨h.isFolder hfolder, hlead, (h.isSome_iff hnext).2 hsome⟩

/-- **Fields that lead elsewhere** lead there in both. -/
theorem leads (h : SameOff place disk disk') (hleads : disk.Leads false links way fields last left)
    (hlast : last ≠ place) : disk'.Leads false links way fields last left := by
  induction hleads with
  | done links way => exact .done links way
  | @step _ _ _ next _ _ rest hfollow hlink hrest ih =>
    have hnext : next ≠ place := by
      cases rest with
      | nil =>
        obtain ⟨rfl, -⟩ := hrest.unique (.done _ _)
        exact hlast
      | cons field rest => exact h.ne_of_isFolder hrest.isFolder
    exact .step (h.follow hfollow hnext) (fun target htarget => hlink target (h.link_iff.1 htarget))
      (ih hlast)
  | @jump _ _ _ next _ _ target _ hfollow hlink _ ih =>
    have hnext : next ≠ place := by
      rintro rfl
      obtain ⟨stored, hstored⟩ := h.file _ (Or.inl hlink)
      exact absurd hstored (by simp)
    exact .jump (h.follow hfollow hnext) (h.link_iff.2 hlink) (ih hlast)

end SameOff

/-- **Putting a file into a folder**, where there was none or another file, changes nothing else that is
seen. -/
theorem sameOff_putFile (hdirectory : disk.IsFolder directory)
    (hplace : ∀ entry, disk.at? (directory ++ [name]) = some entry → ∃ stored, entry = .file stored)
    (stored : StoredFile) :
    SameOff (directory ++ [name]) disk (disk.putFile (directory ++ [name]) stored) := by
  have hway : directory ++ [name] ≠ [] := by simp
  refine ⟨(putFile_here_largest _ _ _).1, fun other hother => ?_, fun entry hentry => ?_⟩
  · obtain ⟨canAdd, entries, hentries⟩ := hdirectory
    rw [at?, putFile, root_put disk hway, at?]
    refine Entry.face_below?_put ⟨_, hentries, rfl⟩ (fun old hold => ?_) rfl hother
    obtain ⟨held, rfl⟩ := hplace old hold
    rfl
  · rcases hentry with hentry | hentry
    · exact hplace entry hentry
    · rw [at?_putFile_self disk hway] at hentry
      exact ⟨stored, (Option.some.inj hentry).symm⟩

/-! ## Names next to a path -/

/-- Names that are joined to a path are looked up in a folder: where the path leads, or in the working
directory if the path is empty. -/
def Anchors (disk : Disk) (root : OsText) (directory : Way) : Prop :=
  disk.IsFolder directory ∧
    ∃ left, disk.Leads false mostLinks (origin disk.here root) root.fields directory left

namespace Anchors

/-- A path leads to one folder at most. -/
lemma unique {directory' : Way} (h : disk.Anchors root directory) (h' : disk.Anchors root directory') :
    directory = directory' := by
  obtain ⟨-, left, hleads⟩ := h
  obtain ⟨-, left', hleads'⟩ := h'
  exact (hleads.unique hleads').1

/-- A path that is not empty is that of the folder. -/
lemma resolve (h : disk.Anchors root directory) (hroot : root ≠ []) :
    disk.resolve false root = .ok directory :=
  resolve_eq_ok_iff.2 ⟨hroot, h.2⟩

/-- Names are looked up in the same folder if other files were written. -/
lemma of_sameOff (h : disk.Anchors root directory) (hsame : SameOff place disk disk') :
    disk'.Anchors root directory := by
  obtain ⟨hfolder, left, hleads⟩ := h
  refine ⟨hsame.isFolder hfolder, left, ?_⟩
  rw [hsame.here_eq]
  exact hsame.leads hleads (hsame.ne_of_isFolder hfolder)

/-- A name that is joined to a path stands for a link if it does so in the folder. -/
lemma isLink_join_iff (h : disk.Anchors root directory) (name : EntryName) :
    disk.isLink (root.join name.bytes) = true ↔
      ∃ target, disk.at? (directory ++ [name]) = some (.link target) := by
  obtain ⟨fields, hfields, hsame⟩ := exists_fields_join disk root name.head?_ne
  obtain ⟨hfolder, left, hleads⟩ := h
  rw [name.fields_bytes] at hfields
  rw [isLink, hfields, List.dropLast_concat, walk_eq_ok_iff.2 ((hsame hfolder).2 hleads),
    List.getLast?_concat, Option.bind_some, EntryName.ofBytes?_bytes]
  dsimp only
  cases disk.at? (directory ++ [name]) with
  | none => simp
  | some entry => cases entry <;> simp

end Anchors

/-- **A name that is joined to a path**, and stands for no link, leads to the entry that it has in the
folder.  There has to be one, unless it is to be created. -/
theorem resolve_join_iff (hlink : disk.isLink (root.join name.bytes) = false) :
    disk.resolve creating (root.join name.bytes) = .ok way ↔
      ∃ directory, disk.Anchors root directory ∧ way = directory ++ [name] ∧
        (creating = true ∨ (disk.at? way).isSome = true) := by
  have hlast : creating = true → ∃ other ∈ name.bytes.fields, other ≠ [] := by
    rw [name.fields_bytes]
    exact fun _ => ⟨name.bytes, List.mem_singleton_self _, name.isName.1⟩
  have hnotLink : ∀ {directory}, disk.Anchors root directory →
      ∀ target, disk.at? (directory ++ [name]) ≠ some (.link target) := by
    intro directory hanchors target htarget
    rw [(hanchors.isLink_join_iff name).2 ⟨target, htarget⟩] at hlink
    exact absurd hlink (by simp)
  rw [resolve_eq_ok_iff, and_iff_right (join_ne_nil root name.isName.1)]
  constructor
  · rintro ⟨left, hleads⟩
    obtain ⟨directory, mid, hroot, hstep⟩ := (leads_join_iff name.head?_ne hlast).1 hleads
    rw [name.fields_bytes] at hstep
    have hanchors : disk.Anchors root directory := ⟨hstep.isFolder, mid, hroot⟩
    obtain ⟨-, hway, -, hthere⟩ := (leads_name_iff (hnotLink hanchors)).1 hstep
    exact ⟨directory, hanchors, hway, hthere⟩
  · rintro ⟨directory, hanchors, hway, hthere⟩
    obtain ⟨hfolder, mid, hroot⟩ := id hanchors
    refine ⟨mid, (leads_join_iff name.head?_ne hlast).2 ⟨directory, mid, hroot, ?_⟩⟩
    rw [name.fields_bytes]
    exact (leads_name_iff (hnotLink hanchors)).2 ⟨hfolder, hway, rfl, hthere⟩

/-- A name that is joined to a path, and stands for no link, is opened in the folder. -/
lemma open?_join_name_iff {entry : Entry} (hlink : disk.isLink (root.join name.bytes) = false) :
    disk.open? (root.join name.bytes) = .ok entry ↔
      ∃ directory, disk.Anchors root directory ∧ disk.at? (directory ++ [name]) = some entry := by
  rw [open?_eq_ok_iff]
  simp only [resolve_join_iff hlink]
  constructor
  · rintro ⟨way, ⟨directory, hanchors, rfl, -⟩, hentry⟩
    exact ⟨directory, hanchors, hentry⟩
  · rintro ⟨directory, hanchors, hentry⟩
    exact ⟨_, ⟨directory, hanchors, rfl, Or.inr (Option.isSome_of_eq_some hentry)⟩, hentry⟩

/-! ## Writing -/

/-- Where a file can be written there is one that can be written, or nothing. -/
lemma of_writable_eq_ok (h : disk.writable way = .ok stored) :
    stored.canWrite = true ∧ ∀ entry, disk.at? way = some entry → ∃ stored, entry = .file stored := by
  unfold writable at h
  split at h
  · rename_i held hheld
    split_ifs at h with hwrite
    obtain rfl := Except.ok.inj h
    exact ⟨hwrite, fun entry hentry => ⟨held, Option.some.inj (hentry.symm.trans hheld)⟩⟩
  · exact absurd h (by simp)
  · exact absurd h (by simp)
  · rename_i hnone
    split_ifs at h
    obtain rfl := Except.ok.inj h
    exact ⟨rfl, fun entry hentry => absurd (hentry.symm.trans hnone) (by simp)⟩

/-- A file that was put where it can be written can be written again. -/
lemma writable_putFile (hway : way ≠ []) (h : stored.canWrite = true) :
    (disk.putFile way stored).writable way = .ok stored := by
  rw [writable, at?_putFile_self disk hway]
  exact if_pos h

/-- A file that can be written is left with what there is room for of the content. -/
lemma writeAt_of_writable (h : disk.writable way = .ok stored) (content : ByteArray) :
    disk.writeAt way content =
      (disk.putFile way
          { stored with content := content.extract 0 (disk.largest.getD content.size) },
        if content.size ≤ disk.largest.getD content.size then none else some .tooLarge) := by
  rw [writeAt, h]

/-- **Writing at a way** changes nothing, or puts a file there; then writing it again ends in the same
way. -/
lemma writeAt_cases (hway : way ≠ []) (content : ByteArray) :
    (disk.writeAt way content).1 = disk ∨
      ∃ stored, disk.writable way = .ok stored ∧ ∃ written,
        (disk.writeAt way content).1 = disk.putFile way written ∧
          (disk.putFile way written).writeAt way content = disk.writeAt way content := by
  cases hstored : disk.writable way with
  | error fault =>
    rw [writeAt, hstored]
    exact Or.inl rfl
  | ok stored =>
    set written : StoredFile :=
      { stored with content := content.extract 0 (disk.largest.getD content.size) } with hwritten
    have hcan : written.canWrite = true := (of_writable_eq_ok hstored).1
    refine Or.inr ⟨stored, rfl, written, ?_, ?_⟩
    · rw [writeAt_of_writable hstored]
    · rw [writeAt_of_writable (writable_putFile hway hcan), writeAt_of_writable hstored,
        (putFile_here_largest _ _ _).2, putFile_putFile]

/-- **Writing under a name next to a path**, if the name stands for no link, changes nothing, or it puts a
file under this name into the folder where the path leads.  Then all else is seen as before, and writing
again ends in the same way. -/
theorem write_join_cases (hlink : disk.isLink (root.join name.bytes) = false) (content : ByteArray) :
    (disk.write (root.join name.bytes) content).1 = disk ∨
      ∃ directory, disk.Anchors root directory ∧
        SameOff (directory ++ [name]) disk (disk.write (root.join name.bytes) content).1 ∧
          (disk.write (root.join name.bytes) content).1.resolve false (root.join name.bytes) =
            .ok (directory ++ [name]) ∧
          (disk.write (root.join name.bytes) content).1.write (root.join name.bytes) content =
            disk.write (root.join name.bytes) content := by
  cases hresolve : disk.resolve true (root.join name.bytes) with
  | error fault =>
    rw [write, hresolve]
    exact Or.inl rfl
  | ok way =>
    obtain ⟨directory, hanchors, rfl, -⟩ := (resolve_join_iff hlink).1 hresolve
    have hwrite : disk.write (root.join name.bytes) content =
        disk.writeAt (directory ++ [name]) content := by rw [write, hresolve]
    rw [hwrite]
    refine (writeAt_cases (by simp) content).imp_right ?_
    rintro ⟨stored, hstored, written, hput, hagain⟩
    have hsame := sameOff_putFile hanchors.1 (of_writable_eq_ok hstored).2 written
    have hanchors' := hanchors.of_sameOff hsame
    have hat : (disk.putFile (directory ++ [name]) written).at? (directory ++ [name]) =
        some (.file written) := at?_putFile_self disk (by simp) written
    -- the name stands for a file now, so for no link
    have hlink' : (disk.putFile (directory ++ [name]) written).isLink (root.join name.bytes) = false := by
      rw [Bool.eq_false_iff]
      intro hlink'
      obtain ⟨target, htarget⟩ := (hanchors'.isLink_join_iff name).1 hlink'
      exact absurd (hat.symm.trans htarget) (by simp)
    rw [hput]
    refine ⟨directory, hanchors, hsame, ?_, ?_⟩
    · exact (resolve_join_iff hlink').2
        ⟨directory, hanchors', rfl, Or.inr (Option.isSome_of_eq_some hat)⟩
    · rw [write, (resolve_join_iff hlink').2 ⟨directory, hanchors', rfl, Or.inl rfl⟩]
      exact hagain

end Disk

end CppDeps
