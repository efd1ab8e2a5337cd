import CppDeps.OsText

/-!
# Entries of folders

The file system is a tree: a folder has entries, each with a name, and an entry is a file, a folder,
a link or something of another kind.  The entries of a folder are kept in ascending order of their
names, which are compared byte by byte; so no name occurs twice, and a folder with the same entries
is the same folder (`Entry.Ordered`).  Putting an entry into a tree keeps this order.
-/

namespace CppDeps

/-! ## Names -/

/-- Can an entry have this name?  It is a field of a path that leads to an entry: not empty, neither
`.` nor `..`, and without slashes. -/
def OsText.IsName (s : OsText) : Prop :=
  s ≠ [] ∧ s ≠ [dot] ∧ s ≠ [dot, dot] ∧ slash ∉ s

instance (s : OsText) : Decidable s.IsName :=
  inferInstanceAs (Decidable (_ ∧ _))

/-- The name of an entry. -/
structure EntryName where
  bytes : OsText
  isName : bytes.IsName
  deriving DecidableEq

namespace EntryName

instance : LT EntryName := ⟨fun name other => name.bytes < other.bytes⟩

instance : DecidableLT EntryName :=
  fun name other => inferInstanceAs (Decidable (name.bytes < other.bytes))

/-- The name that a field of a path is, if it is one. -/
def ofBytes? (s : OsText) : Option EntryName :=
  if h : s.IsName then some ⟨s, h⟩ else none

variable {a b c : EntryName}

/-- Names with the same bytes are the same. -/
theorem eq_of_bytes_eq (h : a.bytes = b.bytes) : a = b := by
  cases a
  cases b
  cases h
  rfl

/-- Names are in order as their bytes are. -/
theorem lt_iff : a < b ↔ a.bytes < b.bytes :=
  Iff.rfl

/-- No name comes before itself. -/
theorem lt_irrefl (a : EntryName) : ¬ a < a :=
  List.lt_irrefl a.bytes

/-- What comes before a name comes before those after it. -/
theorem lt_trans (h : a < b) (h' : b < c) : a < c :=
  List.lt_trans h h'

instance : Std.Irrefl (α := EntryName) (· < ·) := ⟨lt_irrefl⟩

instance : Std.Asymm (α := EntryName) (· < ·) := ⟨fun a _ h h' => lt_irrefl a (lt_trans h h')⟩

/-- Names of which neither comes before the other are the same. -/
theorem eq_of_not_lt (h : ¬ a < b) (h' : ¬ b < a) : a = b :=
  eq_of_bytes_eq (List.le_antisymm h' h)

/-- Names of which one comes before the other differ. -/
theorem ne_of_lt (h : a < b) : a ≠ b :=
  fun heq => lt_irrefl b (heq ▸ h)

/-- A name is the name that its bytes are. -/
theorem ofBytes?_bytes (name : EntryName) : ofBytes? name.bytes = some name := by
  rw [ofBytes?, dif_pos name.isName]

end EntryName

/-- A way from a folder into the folders below it, name by name. -/
abbrev Way := List EntryName

/-- The names in a path. -/
def Way.ofPath (path : OsText) : Way :=
  path.fields.filterMap EntryName.ofBytes?

/-! ## Entries -/

/-- A file with its content, and what the program may do with it. -/
structure StoredFile where
  content : ByteArray
  canRead : Bool := true
  canWrite : Bool := true

/-- An entry of a folder. -/
inductive Entry where
  | file (stored : StoredFile)
  /-- A folder with its entries by name, to which the program can add others or not. -/
  | folder (canAdd : Bool) (entries : List (EntryName × Entry))
  /-- A link, with the path that is followed in its place. -/
  | link (target : OsText)
  /-- Something else that has a name, such as a socket; it cannot be opened. -/
  | special

namespace Entry

instance : Inhabited Entry := ⟨special⟩

/-- The entries of a folder; anything else has none. -/
def entries : Entry → List (EntryName × Entry)
  | folder _ entries => entries
  | _ => []

/-- Can entries be added?  What is no folder yet counts as a new one. -/
def canAdd : Entry → Bool
  | folder canAdd _ => canAdd
  | _ => true

/-- Is it a folder? -/
def isFolder : Entry → Bool
  | folder _ _ => true
  | _ => false

/-- The entry at the end of a way through folders. -/
def below? : Way → Entry → Option Entry
  | [], entry => some entry
  | name :: way, entry => (entry.entries.lookup name).bind (below? way)

/-- Gives a name its entry, at its place in an ascending list. -/
def setEntry (name : EntryName) (new : Entry) :
    List (EntryName × Entry) → List (EntryName × Entry)
  | [] => [(name, new)]
  | other :: rest =>
    if name < other.1 then (name, new) :: other :: rest
    else if other.1 < name then other :: setEntry name new rest
    else (name, new) :: rest

/-- Puts an entry at the end of a way, with folders on the way where there are none. -/
def put (new : Entry) : Way → Entry → Entry
  | [], _ => new
  | name :: way, entry =>
    let old := (entry.entries.lookup name).getD (folder true [])
    folder entry.canAdd (setEntry name (put new way old) entry.entries)

variable {name other : EntryName} {way rest : Way} {new found entry : Entry}
  {listed : List (EntryName × Entry)}

/-! ## Setting an entry -/

/-- What is in a folder after an entry is set: this entry, and what was there. -/
theorem mem_of_mem_setEntry {held : EntryName × Entry} (h : held ∈ setEntry name new listed) :
    held = (name, new) ∨ held ∈ listed := by
  induction listed with
  | nil => exact Or.inl (List.mem_singleton.1 h)
  | cons first listed ih =>
    rw [setEntry] at h
    split at h
    · exact List.mem_cons.1 h
    · split at h
      · rcases List.mem_cons.1 h with rfl | h
        · exact Or.inr List.mem_cons_self
        · exact (ih h).imp_right (List.mem_cons_of_mem first)
      · exact (List.mem_cons.1 h).imp_right (List.mem_cons_of_mem first)

/-- Setting an entry changes what its name stands for, and no other name. -/
theorem lookup_setEntry (name other : EntryName) (new : Entry)
    (listed : List (EntryName × Entry)) :
    (setEntry name new listed).lookup other = if other = name then some new else listed.lookup other := by
  have hcons : ∀ (first : EntryName × Entry) (listed : List (EntryName × Entry)),
      (first :: listed).lookup other = if other = first.1 then some first.2 else listed.lookup other := by
    intro first listed
    by_cases hother : other = first.1
    · rw [if_pos hother, List.lookup_cons, hother, beq_self_eq_true]
    · rw [if_neg hother, List.lookup_cons, beq_false_of_ne hother]
  induction listed with
  | nil => exact hcons (name, new) []
  | cons first listed ih =>
    rw [setEntry]
    split
    · exact hcons (name, new) _
    · rename_i hbefore
      split
      · rename_i hafter
        rw [hcons, hcons, ih]
        by_cases hother : other = first.1
        · have hne : other ≠ name := hother ▸ EntryName.ne_of_lt hafter
          rw [if_pos hother, if_neg hne, if_pos hother]
        · rw [if_neg hother, if_neg hother]
      · rename_i hafter
        obtain rfl : name = first.1 := EntryName.eq_of_not_lt hbefore hafter
        rw [hcons, hcons]
        by_cases hother : other = first.1
        · rw [if_pos hother, if_pos hother]
        · rw [if_neg hother, if_neg hother, if_neg hother]

/-- Setting an entry keeps the order of names. -/
theorem pairwise_setEntry (new : Entry) (h : listed.Pairwise fun held held' => held.1 < held'.1) :
    (setEntry name new listed).Pairwise fun held held' => held.1 < held'.1 := by
  induction listed with
  | nil => exact List.pairwise_singleton _ _
  | cons first listed ih =>
    obtain ⟨hfirst, hrest⟩ := List.pairwise_cons.1 h
    rw [setEntry]
    split
    · rename_i hbefore
      refine List.pairwise_cons.2 ⟨fun held hheld => ?_, h⟩
      rcases List.mem_cons.1 hheld with rfl | hheld
      · exact hbefore
      · exact EntryName.lt_trans hbefore (hfirst held hheld)
    · rename_i hbefore
      split
      · rename_i hafter
        refine List.pairwise_cons.2 ⟨fun held hheld => ?_, ih hrest⟩
        rcases mem_of_mem_setEntry hheld with rfl | hheld
        · exact hafter
        · exact hfirst held hheld
      · rename_i hafter
        obtain rfl : name = first.1 := EntryName.eq_of_not_lt hbefore hafter
        exact List.pairwise_cons.2 ⟨hfirst, hrest⟩

/-! ## Order -/

/-- The entries of every folder in an entry ascend in their names. -/
def Ordered (entry : Entry) : Prop :=
  ∀ way found, entry.below? way = some found →
    found.entries.Pairwise fun held held' => held.1 < held'.1

/-- An entry is ordered if its own entries ascend and are ordered. -/
theorem ordered_iff : entry.Ordered ↔
    (entry.entries.Pairwise fun held held' => held.1 < held'.1) ∧
      ∀ name found, entry.entries.lookup name = some found → found.Ordered := by
  constructor
  · intro h
    refine ⟨h [] entry rfl, fun name found hfound way reached hreached => h (name :: way) reached ?_⟩
    rw [below?, hfound]
    exact hreached
  · rintro ⟨hentries, hbelow⟩ way reached hreached
    cases way with
    | nil =>
      obtain rfl : entry = reached := Option.some.inj hreached
      exact hentries
    | cons name way =>
      obtain ⟨found, hfound, hreached⟩ := Option.bind_eq_some_iff.1 hreached
      exact hbelow name found hfound way reached hreached

/-- What has no entries is ordered. -/
theorem ordered_of_entries_eq_nil (h : entry.entries = []) : entry.Ordered := by
  rw [ordered_iff, h]
  exact ⟨List.Pairwise.nil, fun _ _ hfound => absurd hfound (by simp)⟩

/-- What an ordered entry holds is ordered. -/
theorem Ordered.below (h : entry.Ordered) (hfound : entry.below? way = some found) :
    found.Ordered := by
  induction way generalizing entry with
  | nil =>
    obtain rfl : entry = found := Option.some.inj hfound
    exact h
  | cons name way ih =>
    obtain ⟨next, hnext, hfound⟩ := Option.bind_eq_some_iff.1 hfound
    exact ih ((ordered_iff.1 h).2 name next hnext) hfound

/-- **Putting an ordered entry into an ordered one** gives an ordered one. -/
theorem Ordered.put (h : entry.Ordered) (hnew : new.Ordered) (way : Way) :
    (put new way entry).Ordered := by
  induction way generalizing entry with
  | nil => exact hnew
  | cons name way ih =>
    obtain ⟨hentries, hbelow⟩ := ordered_iff.1 h
    have hold : ((entry.entries.lookup name).getD (folder true [])).Ordered := by
      cases hfound : entry.entries.lookup name with
      | none => exact ordered_of_entries_eq_nil rfl
      | some found => exact hbelow name found hfound
    refine ordered_iff.2 ⟨pairwise_setEntry _ hentries, fun other found hfound => ?_⟩
    rw [Entry.put, entries, lookup_setEntry] at hfound
    split at hfound
    · obtain rfl := Option.some.inj hfound
      exact ih hold
    · exact hbelow other found hfound

end Entry

end CppDeps
