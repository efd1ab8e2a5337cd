import CppDeps.Proofs.Disk.Folders
import CppDeps.Proofs.Path.Joining
import CppDeps.Scan

/-!
# Where paths lead

A path is followed field by field, and links are followed in their place.  What such a walk does is said
by a relation with one rule for each kind of step (`Disk.Leads`): the walk ends well exactly if the rules
lead somewhere (`Disk.walk_eq_ok_iff`), so what holds of every walk is shown by induction on the rules.

Two walks in a row are one walk (`Disk.leads_append_iff`).  Hence a path that is joined to another one is
followed from the folder where that one leads (`Disk.leads_join_iff`), whatever links, `..` or slashes
there are in the two, and a way into that folder leads to the entry at its end (`Disk.open?_join`).
-/

namespace CppDeps

/-- A computation that goes on after another one succeeds if both do. -/
lemma bind_eq_ok_iff {ε α β : Type} {first : Except ε α} {rest : α → Except ε β} {b : β} :
    first >>= rest = .ok b ↔ ∃ a, first = .ok a ∧ rest a = .ok b := by
  cases first with
  | error fault => simp [bind, Except.bind]
  | ok a => simp [bind, Except.bind]

namespace Disk

variable {disk : Disk} {creating : Bool} {links left : Nat} {name : EntryName} {entry found : Entry}
  {directory way next last : Way} {field : OsText} {fields fields' rest rest' : List OsText}
  {path root : OsText}

/-! ## Steps -/

/-- A name leads to the entry that it stands for. -/
lemma lead_name (way : Way) (name : EntryName) : lead way name.bytes = way ++ [name] := by
  rw [lead, EntryName.ofBytes?_bytes]

/-- A step starts from a folder. -/
lemma isFolder_of_follow (h : disk.follow creating way field rest = .ok next) : disk.IsFolder way := by
  unfold follow at h
  split at h
  · exact absurd h (by simp)
  · rename_i canAdd entries hentries
    exact ⟨canAdd, entries, hentries⟩
  · exact absurd h (by simp)

/-- A step leads where its field says. -/
lemma eq_lead_of_follow (h : disk.follow creating way field rest = .ok next) : next = lead way field := by
  obtain ⟨canAdd, entries, hentries⟩ := isFolder_of_follow h
  rw [follow, hentries] at h
  dsimp only at h
  split_ifs at h <;> exact (Except.ok.inj h).symm

/-- A step can be made from a folder if something is where it leads. -/
lemma follow_false_eq_ok_iff : disk.follow false way field rest = .ok next ↔
    disk.IsFolder way ∧ next = lead way field ∧ (disk.at? next).isSome = true := by
  constructor
  · intro h
    have hfolder := isFolder_of_follow h
    obtain ⟨canAdd, entries, hentries⟩ := hfolder
    refine ⟨⟨canAdd, entries, hentries⟩, eq_lead_of_follow h, ?_⟩
    rw [follow, hentries] at h
    simp only [Bool.false_eq_true, false_and, if_false] at h
    split_ifs at h with hsome
    rw [← Except.ok.inj h]
    exact hsome
  · rintro ⟨⟨canAdd, entries, hentries⟩, rfl, hsome⟩
    rw [follow, hentries]
    simp only [Bool.false_eq_true, false_and, if_false, hsome, if_true]

/-- Only where nothing but slashes follows does a step create anything. -/
lemma follow_eq_follow_false (hrest : creating = true → ∃ other ∈ rest, other ≠ []) (rest' : List OsText) :
    disk.follow creating way field rest = disk.follow false way field rest' := by
  have hnot : ¬ (creating = true ∧ field.IsName ∧ ∀ other ∈ rest, other = []) := by
    rintro ⟨hcreating, -, hempty⟩
    obtain ⟨other, hother, hne⟩ := hrest hcreating
    exact hne (hempty other hother)
  have hnot' : ¬ (false = true ∧ field.IsName ∧ ∀ other ∈ rest', other = []) :=
    fun h => Bool.false_ne_true h.1
  unfold follow
  split
  · rfl
  · dsimp only
    rw [if_neg hnot, if_neg hnot']
  · rfl

/-- The last name of a path that is to be created need not be there. -/
lemma follow_true_eq_ok_iff : disk.follow true way name.bytes [] = .ok next ↔
    disk.IsFolder way ∧ next = way ++ [name] := by
  constructor
  · exact fun h => ⟨isFolder_of_follow h, lead_name way name ▸ eq_lead_of_follow h⟩
  · rintro ⟨⟨canAdd, entries, hentries⟩, rfl⟩
    rw [follow, hentries]
    dsimp only
    rw [if_pos ⟨rfl, name.isName, by simp⟩, if_pos rfl, lead_name]

/-! ## Walks -/

/-- Fields lead from a folder along a way, while so many links can be followed at first and in the
end. -/
inductive Leads (disk : Disk) (creating : Bool) : Nat → Way → List OsText → Way → Nat → Prop
  | /-- No field leads nowhere else. -/
    done (links : Nat) (way : Way) : Leads disk creating links way [] way links
  | /-- A step to something that is no link. -/
    step {links left : Nat} {way next last : Way} {field : OsText} {rest : List OsText}
      (hfollow : disk.follow creating way field rest = .ok next)
      (hlink : ∀ target, disk.at? next ≠ some (.link target))
      (h : Leads disk creating links next rest last left) :
      Leads disk creating links way (field :: rest) last left
  | /-- A step to a link, whose target is followed in its place. -/
    jump {links left : Nat} {way next last : Way} {field target : OsText} {rest : List OsText}
      (hfollow : disk.follow creating way field rest = .ok next)
      (hlink : disk.at? next = some (.link target))
      (h : Leads disk creating links (origin way target) (target.fields ++ rest) last left) :
      Leads disk creating (links + 1) way (field :: rest) last left

/-- A walk goes on from what is no link. -/
lemma walk_step (hfollow : disk.follow creating way field rest = .ok next)
    (hlink : ∀ target, disk.at? next ≠ some (.link target)) :
    disk.walk creating links way (field :: rest) = disk.walk creating links next rest := by
  cases links <;>
  · rw [walk, pass, hfollow]
    dsimp only
    split
    · rename_i target htarget
      exact absurd htarget (hlink target)
    · rfl

/-- At a link a walk goes on with the target. -/
lemma walk_jump {target : OsText} (hfollow : disk.follow creating way field rest = .ok next)
    (hlink : disk.at? next = some (.link target)) :
    disk.walk creating (links + 1) way (field :: rest) =
      disk.walk creating links (origin way target) (target.fields ++ rest) := by
  rw [walk, pass, hfollow]
  dsimp only
  rw [hlink]

/-- A walk ends at a link if no more links are to be followed. -/
lemma walk_zero_of_link {target : OsText} (hfollow : disk.follow creating way field rest = .ok next)
    (hlink : disk.at? next = some (.link target)) :
    disk.walk creating 0 way (field :: rest) = .error .tooManyLinks := by
  rw [walk, pass, hfollow]
  dsimp only
  rw [hlink]

/-- A walk ends where no step can be made. -/
lemma walk_error {fault : Fault} (hfollow : disk.follow creating way field rest = .error fault) :
    disk.walk creating links way (field :: rest) = .error fault := by
  cases links <;> rw [walk, pass, hfollow]

/-- **A walk ends well** exactly if the fields lead somewhere. -/
theorem walk_eq_ok_iff : disk.walk creating links way fields = .ok (last, left) ↔
    disk.Leads creating links way fields last left := by
  constructor
  · -- by induction on the links that can be followed, and on the fields up to the next one
    induction links using Nat.strong_induction_on generalizing way fields with
    | _ links ihlinks =>
    induction fields generalizing way with
    | nil =>
      intro h
      have hdone : disk.walk creating links way [] = .ok (way, links) := by cases links <;> rfl
      obtain ⟨rfl, rfl⟩ := Prod.mk.inj (Except.ok.inj (hdone.symm.trans h))
      exact .done _ _
    | cons field rest ih =>
      intro h
      cases hfollow : disk.follow creating way field rest with
      | error fault =>
        rw [walk_error hfollow] at h
        exact absurd h (by simp)
      | ok next =>
        by_cases hlink : ∃ target, disk.at? next = some (.link target)
        · obtain ⟨target, htarget⟩ := hlink
          cases links with
          | zero =>
            rw [walk_zero_of_link hfollow htarget] at h
            exact absurd h (by simp)
          | succ links =>
            rw [walk_jump hfollow htarget] at h
            exact .jump hfollow htarget (ihlinks links (Nat.lt_succ_self links) h)
        · rw [walk_step hfollow (not_exists.1 hlink)] at h
          exact .step hfollow (not_exists.1 hlink) (ih h)
  · intro h
    induction h with
    | done links way => cases links <;> rfl
    | step hfollow hlink _ ih => rw [walk_step hfollow hlink, ih]
    | jump hfollow hlink _ ih => rw [walk_jump hfollow hlink, ih]

/-- Fields lead to one place at most. -/
lemma Leads.unique {last' : Way} {left' : Nat} (h : disk.Leads creating links way fields last left)
    (h' : disk.Leads creating links way fields last' left') : last = last' ∧ left = left' :=
  Prod.mk.inj (Except.ok.inj ((walk_eq_ok_iff.2 h).symm.trans (walk_eq_ok_iff.2 h')))

/-- A walk with a step in it starts from a folder. -/
lemma Leads.isFolder (h : disk.Leads creating links way (field :: rest) last left) :
    disk.IsFolder way := by
  cases h with
  | step hfollow => exact isFolder_of_follow hfollow
  | jump hfollow => exact isFolder_of_follow hfollow

/-- **Two walks in a row** are one walk.  If the path is to be created, its last name is one of the second
walk. -/
theorem leads_append_iff (hlast : creating = true → ∃ other ∈ fields', other ≠ []) :
    disk.Leads creating links way (fields ++ fields') last left ↔
      ∃ between mid, disk.Leads false links way fields between mid ∧
        disk.Leads creating mid between fields' last left := by
  have hrest : ∀ rest : List OsText, creating = true → ∃ other ∈ rest ++ fields', other ≠ [] := by
    intro rest hcreating
    obtain ⟨other, hother, hne⟩ := hlast hcreating
    exact ⟨other, List.mem_append_right rest hother, hne⟩
  constructor
  · generalize hall : fields ++ fields' = all
    intro h
    induction h generalizing fields with
    | done links way =>
      obtain ⟨rfl, rfl⟩ := List.append_eq_nil_iff.1 hall
      exact ⟨way, links, .done _ _, .done _ _⟩
    | @step links _ way _ _ field _ hfollow hlink h ih =>
      cases fields with
      | nil =>
        obtain rfl : fields' = _ := hall
        exact ⟨way, links, .done _ _, .step hfollow hlink h⟩
      | cons first fields =>
        rw [List.cons_append] at hall
        obtain ⟨rfl, rfl⟩ := List.cons.inj hall
        obtain ⟨between, mid, hfirst, hsecond⟩ := ih rfl
        rw [follow_eq_follow_false (hrest fields) fields] at hfollow
        exact ⟨between, mid, .step hfollow hlink hfirst, hsecond⟩
    | @jump links _ way _ _ field _ _ hfollow hlink h ih =>
      cases fields with
      | nil =>
        obtain rfl : fields' = _ := hall
        exact ⟨way, links + 1, .done _ _, .jump hfollow hlink h⟩
      | cons first fields =>
        rw [List.cons_append] at hall
        obtain ⟨rfl, rfl⟩ := List.cons.inj hall
        obtain ⟨between, mid, hfirst, hsecond⟩ := ih (List.append_assoc _ _ _)
        rw [follow_eq_follow_false (hrest fields) fields] at hfollow
        exact ⟨between, mid, .jump hfollow hlink hfirst, hsecond⟩
  · rintro ⟨between, mid, hfirst, hsecond⟩
    induction hfirst with
    | done links way => exact hsecond
    | @step _ _ _ _ _ _ rest hfollow hlink _ ih =>
      rw [← follow_eq_follow_false (hrest rest) rest] at hfollow
      exact .step hfollow hlink (ih hsecond)
    | @jump _ _ _ _ _ _ _ rest hfollow hlink _ ih =>
      rw [← follow_eq_follow_false (hrest rest) rest] at hfollow
      have hgoes := ih hsecond
      rw [List.append_assoc] at hgoes
      exact .jump hfollow hlink hgoes

/-! ## Short walks -/

/-- An empty field leads from a folder to itself. -/
lemma leads_nil_iff : disk.Leads false links way [[]] last left ↔
    disk.IsFolder way ∧ last = way ∧ left = links := by
  have hstep : disk.IsFolder way → disk.Leads false links way [[]] way links := by
    rintro ⟨canAdd, entries, hentries⟩
    have hfollow : disk.follow false way [] [] = .ok way :=
      follow_false_eq_ok_iff.2 ⟨⟨canAdd, entries, hentries⟩, rfl, Option.isSome_of_eq_some hentries⟩
    exact .step hfollow (fun target htarget => by simp [hentries] at htarget) (.done _ _)
  constructor
  · intro h
    obtain ⟨rfl, rfl⟩ := h.unique (hstep h.isFolder)
    exact ⟨h.isFolder, rfl, rfl⟩
  · rintro ⟨hfolder, rfl, rfl⟩
    exact hstep hfolder

/-- A name that stands for no link leads from a folder to its entry there. -/
lemma leads_name_iff (hlink : ∀ target, disk.at? (directory ++ [name]) ≠ some (.link target)) :
    disk.Leads creating links directory [name.bytes] last left ↔
      disk.IsFolder directory ∧ last = directory ++ [name] ∧ left = links ∧
        (creating = true ∨ (disk.at? last).isSome = true) := by
  have hfollow : disk.follow creating directory name.bytes [] = .ok (directory ++ [name]) ↔
      disk.IsFolder directory ∧ (creating = true ∨ (disk.at? (directory ++ [name])).isSome = true) := by
    cases creating with
    | false => simp [follow_false_eq_ok_iff, lead_name]
    | true => simp [follow_true_eq_ok_iff]
  constructor
  · intro h
    have hlead : ∀ {next}, disk.follow creating directory name.bytes [] = .ok next →
        next = directory ++ [name] := fun hnext => lead_name directory name ▸ eq_lead_of_follow hnext
    cases h with
    | step hnext _ h =>
      obtain rfl := hlead hnext
      cases h
      obtain ⟨hfolder, hthere⟩ := hfollow.1 hnext
      exact ⟨hfolder, rfl, rfl, hthere⟩
    | jump hnext htarget =>
      obtain rfl := hlead hnext
      exact absurd htarget (hlink _)
  · rintro ⟨hfolder, rfl, rfl, hthere⟩
    exact .step (hfollow.2 ⟨hfolder, hthere⟩) hlink (.done _ _)

/-- The names along a way through folders lead to the entry at its end, if that is no link. -/
lemma leads_names (hdirectory : disk.at? directory = some entry) (hfound : entry.below? way = some found)
    (hlink : ∀ target, found ≠ .link target) :
    disk.Leads false links directory (way.map EntryName.bytes) (directory ++ way) links := by
  induction way generalizing directory entry with
  | nil =>
    rw [List.append_nil]
    exact .done _ _
  | cons name way ih =>
    obtain ⟨next, hnext, hrest⟩ := Entry.below?_cons_eq_some_iff.1 hfound
    obtain ⟨canAdd, entries, rfl⟩ := Entry.isFolder_iff.1 (Entry.isFolder_of_lookup hnext)
    have hat : disk.at? (directory ++ [name]) = some next := (at?_concat hdirectory name).trans hnext
    have hfollow : ∀ rest,
        disk.follow false directory name.bytes rest = .ok (directory ++ [name]) := fun rest =>
      follow_false_eq_ok_iff.2 ⟨⟨canAdd, entries, hdirectory⟩, (lead_name directory name).symm,
        Option.isSome_of_eq_some hat⟩
    have hnotLink : ∀ target, disk.at? (directory ++ [name]) ≠ some (.link target) := by
      intro target htarget
      obtain rfl : next = .link target := Option.some.inj (hat.symm.trans htarget)
      -- a link has no entries, so the way would have to end here
      cases way with
      | nil => exact hlink target (Option.some.inj hrest).symm
      | cons other way => exact absurd hrest (by simp [Entry.below?, Entry.entries])
    have hgoes := ih hat hrest
    rw [List.append_assoc] at hgoes
    exact .step (hfollow _) hnotLink hgoes

/-! ## Paths -/

/-- The way that a path leads is that of its fields, from the folder that it starts from. -/
lemma resolve_eq_ok_iff : disk.resolve creating path = .ok way ↔
    path ≠ [] ∧
      ∃ left, disk.Leads creating mostLinks (origin disk.here path) path.fields way left := by
  rw [resolve]
  split_ifs with hpath
  · simp [hpath]
  · rw [and_iff_right hpath]
    simp only [← walk_eq_ok_iff]
    cases disk.walk creating mostLinks (origin disk.here path) path.fields with
    | error fault => simp [Except.map]
    | ok reached => simp [Except.map, Prod.ext_iff, eq_comm]

/-- Opening a path gives what is at the end of its way. -/
lemma open?_eq_ok_iff : disk.open? path = .ok entry ↔
    ∃ way, disk.resolve false path = .ok way ∧ disk.at? way = some entry := by
  rw [open?, bind_eq_ok_iff]
  refine exists_congr fun way => and_congr_right fun _ => ?_
  cases disk.at? way <;> simp

/-- Reading a path gives the content of the file at the end of its way, if the file can be read. -/
lemma read_of_open? {stored : StoredFile} (h : disk.open? path = .ok (.file stored)) :
    disk.read path = if stored.canRead then .ok stored.content else .error .denied := by
  rw [read, h]
  rfl

end Disk

/-! ## Ways as paths -/

namespace Way

variable {way : Way}

/-- The fields of a way that is written as a path are its names. -/
lemma fields_path (hway : way ≠ []) : way.path.fields = way.map EntryName.bytes := by
  have hslash : ∀ field ∈ way.map EntryName.bytes, OsText.slash ∉ field := by
    intro field hfield
    obtain ⟨name, -, rfl⟩ := List.mem_map.1 hfield
    exact name.isName.2.2.2
  exact List.splitOn_intercalate OsText.slash hslash fun hnil => hway (List.map_eq_nil_iff.1 hnil)

/-- A way that is written as a path does not start with an empty field. -/
lemma fields_path_ne (hway : way ≠ []) (rest : List OsText) : way.path.fields ≠ [] :: rest := by
  rw [fields_path hway]
  obtain ⟨first, names, rfl⟩ := List.exists_cons_of_ne_nil hway
  exact fun h => first.isName.1 (List.cons.inj h).1

/-- A way that is written as a path does not start with a slash. -/
lemma head?_path_ne (hway : way ≠ []) : way.path.head? ≠ some OsText.slash := by
  intro hslash
  obtain ⟨rest, hrest⟩ : ∃ rest, way.path = [] ++ OsText.slash :: rest := List.head?_eq_some_iff.1 hslash
  refine fields_path_ne hway (OsText.fields rest) ?_
  rw [OsText.fields, hrest, List.splitOn_append_cons_self, List.splitOn_nil]
  rfl

/-- A way of some names is not written as the empty path. -/
lemma path_ne_nil (hway : way ≠ []) : way.path ≠ [] := by
  intro hnil
  refine fields_path_ne hway [] ?_
  rw [hnil]
  exact List.splitOn_nil _

end Way

namespace EntryName

variable {name : EntryName}

/-- A name is written as the way of this one name. -/
lemma path_eq_bytes (name : EntryName) : Way.path [name] = name.bytes := by
  rw [Way.path, List.map_singleton, List.intercalate_singleton]

/-- A name is one field. -/
lemma fields_bytes (name : EntryName) : name.bytes.fields = [name.bytes] := by
  rw [← name.path_eq_bytes, Way.fields_path (List.cons_ne_nil name []), name.path_eq_bytes]
  rfl

/-- A name does not start with a slash. -/
lemma head?_ne (name : EntryName) : name.bytes.head? ≠ some OsText.slash := by
  rw [← name.path_eq_bytes]
  exact Way.head?_path_ne (List.cons_ne_nil name [])

end EntryName

namespace Disk

variable {disk : Disk} {creating : Bool} {links left : Nat} {name : EntryName} {entry found : Entry}
  {directory way last : Way} {path root : OsText}

/-! ## Joined paths -/

/-- A path that is joined to another one is not empty if it was not so before. -/
lemma join_ne_nil (root : OsText) (hpath : path ≠ []) : root.join path ≠ [] := by
  rw [OsText.join, Text.joinAt]
  split_ifs
  · exact hpath
  · simp [hpath]
  · simp

/-- Joining a relative path puts its fields after others that lead to the same folder as the path it is
joined to. -/
lemma exists_fields_join (disk : Disk) (root : OsText) (hpath : path.head? ≠ some OsText.slash) :
    ∃ fields, (root.join path).fields = fields ++ path.fields ∧
      ∀ {links left directory}, disk.IsFolder directory →
        (disk.Leads false links (origin disk.here (root.join path)) fields directory left ↔
          disk.Leads false links (origin disk.here root) root.fields directory left) := by
  by_cases hroot : root = []
  · subst hroot
    have hjoin : OsText.join [] path = path := Text.joinAt_of_or (Or.inr rfl)
    have horigin : origin disk.here path = disk.here := if_neg fun h => hpath (beq_iff_eq.1 h)
    have hempty : OsText.fields [] = [[]] := List.splitOn_nil _
    refine ⟨[], by rw [hjoin, List.nil_append], fun {links left directory} hdirectory => ?_⟩
    have horigin' : origin disk.here [] = disk.here := rfl
    rw [hjoin, horigin, horigin', hempty, leads_nil_iff]
    constructor
    · intro h
      obtain ⟨rfl, rfl⟩ := h.unique (.done links disk.here)
      exact ⟨hdirectory, rfl, rfl⟩
    · rintro ⟨-, rfl, rfl⟩
      exact .done _ _
  · obtain ⟨fields, hsplit, hjoined⟩ := Text.splitOn_joinAt hroot hpath
    have horigin : origin disk.here (root.join path) = origin disk.here root := by
      rw [origin, origin, OsText.isAbsolute, OsText.isAbsolute, OsText.join,
        Text.head?_joinAt hroot hpath]
    refine ⟨fields, hjoined, fun hdirectory => ?_⟩
    rw [horigin]
    rcases hsplit with hsplit | hsplit
    · rw [OsText.fields, hsplit]
    · -- a slash at the end leads from the folder to itself
      rw [OsText.fields, hsplit, leads_append_iff (by simp)]
      constructor
      · exact fun hstart => ⟨_, _, hstart, leads_nil_iff.2 ⟨hdirectory, rfl, rfl⟩⟩
      · rintro ⟨between, mid, hstart, hslash⟩
        obtain ⟨-, rfl, rfl⟩ := leads_nil_iff.1 hslash
        exact hstart

/-- **A relative path that is joined to another one** is followed from where that one leads. -/
theorem leads_join_iff (hpath : path.head? ≠ some OsText.slash)
    (hlast : creating = true → ∃ other ∈ path.fields, other ≠ []) :
    disk.Leads creating links (origin disk.here (root.join path)) (root.join path).fields last left ↔
      ∃ directory mid, disk.Leads false links (origin disk.here root) root.fields directory mid ∧
        disk.Leads creating mid directory path.fields last left := by
  obtain ⟨fields, hfields, hsame⟩ := exists_fields_join disk root hpath
  rw [hfields, leads_append_iff hlast]
  refine exists_congr fun directory => exists_congr fun mid => and_congr_left fun h => hsame ?_
  -- a path has a field, so the second walk makes a step
  obtain ⟨first, others, hsplit⟩ := List.exists_cons_of_ne_nil (List.splitOn_ne_nil OsText.slash path)
  rw [OsText.fields, hsplit] at h
  exact h.isFolder

/-- **A way from an entry, joined to a path that leads there**, leads to what is at its end, unless that is
a link. -/
theorem open?_join (hroot : disk.open? root = .ok entry) (hway : way ≠ [])
    (hfound : entry.below? way = some found) (hlink : ∀ target, found ≠ .link target) :
    disk.open? (root.join way.path) = .ok found := by
  obtain ⟨directory, hresolve, hdirectory⟩ := open?_eq_ok_iff.1 hroot
  obtain ⟨-, mid, hleads⟩ := resolve_eq_ok_iff.1 hresolve
  refine open?_eq_ok_iff.2 ⟨directory ++ way,
    resolve_eq_ok_iff.2 ⟨join_ne_nil root (Way.path_ne_nil hway), mid, ?_⟩, ?_⟩
  · refine (leads_join_iff (Way.head?_path_ne hway) (by simp)).2 ⟨directory, mid, hleads, ?_⟩
    rw [Way.fields_path hway]
    exact leads_names hdirectory hfound hlink
  · rw [at?_append hdirectory]
    exact hfound

end Disk

end CppDeps
