import CppDeps.Entry

/-!
# The file system

The file system is a folder, the root, with all that is in it.  A relative path starts from the
working directory, an absolute one from the root, and a path is followed field by field: every field
but the last has to lead to a folder, and `..` leads back to the folder around.  A link on the way
is followed in its place, from the folder that it is in; so many links are followed for one path and
no more.

A file that is written is first emptied and then filled.  If it cannot be filled, what fits of the
content is left.
-/

namespace CppDeps

/-- Why a file cannot be read or written. -/
inductive Fault
  | notFound
  | notAFolder
  | isAFolder
  /-- The bytes of the file are no text. -/
  | invalidText
  | denied
  | tooManyLinks
  /-- The path leads to something that is neither a file nor a folder. -/
  | noDevice
  | tooLarge
  deriving DecidableEq, Repr

/-- The wording of a fault. -/
def Fault.message : Fault → String
  | .notFound => "No such file or directory (os error 2)"
  | .notAFolder => "Not a directory (os error 20)"
  | .isAFolder => "Is a directory (os error 21)"
  | .invalidText => "stream did not contain valid UTF-8"
  | .denied => "Permission denied (os error 13)"
  | .tooManyLinks => "Too many levels of symbolic links (os error 40)"
  | .noDevice => "No such device or address (os error 6)"
  | .tooLarge => "File too large (os error 27)"

/-- The file system, as the program finds it. -/
@[ext]
structure Disk where
  root : Entry
  /-- The way to the working directory. -/
  here : Way
  /-- The most bytes that a file can have, if there is a bound. -/
  largest : Option Nat := none
  isFolder : root.isFolder = true
  ordered : root.Ordered

namespace Disk

/-! ## Entries -/

/-- The entry at the end of a way from the root. -/
def at? (disk : Disk) (way : Way) : Option Entry :=
  disk.root.below? way

/-- Puts an entry at the end of a way, with folders on the way where there are none. -/
def put (disk : Disk) (way : Way) (new : Entry) (hnew : new.Ordered) : Disk :=
  match way with
  | [] => disk
  | name :: way =>
    { disk with
      root := Entry.put new (name :: way) disk.root
      isFolder := rfl
      ordered := disk.ordered.put hnew (name :: way) }

/-- Puts a file at the end of a way, with folders on the way where there are none. -/
def putFile (disk : Disk) (way : Way) (stored : StoredFile) : Disk :=
  disk.put way (.file stored) (Entry.ordered_of_entries_eq_nil rfl)

/-- The folder that a path starts from, seen from a folder. -/
def origin (way : Way) (path : OsText) : Way :=
  if path.isAbsolute then [] else way

/-- Where a field leads from a folder: to an entry, to the folder around, or to the folder
itself. -/
def lead (way : Way) (field : OsText) : Way :=
  match EntryName.ofBytes? field with
  | some name => way ++ [name]
  | none => if field = [OsText.dot, OsText.dot] then way.dropLast else way

/-- The file system with nothing but the way to the working directory. -/
def empty (here : Way) : Disk :=
  put { root := .folder true [], here, isFolder := rfl
        ordered := Entry.ordered_of_entries_eq_nil rfl }
    here (.folder true []) (Entry.ordered_of_entries_eq_nil rfl)

instance : Inhabited Disk := ⟨empty []⟩

/-- The file system with the given files, and the given folders where there is nothing of their
names.  Paths are taken as they are written. -/
def ofFiles (here : Way) (files : List (OsText × StoredFile)) (folders : List OsText) : Disk :=
  let wayOf := fun path => (OsText.fields path).foldl lead (origin here path)
  let disk := files.foldl (fun disk (path, stored) => disk.putFile (wayOf path) stored) (empty here)
  folders.foldl
    (fun disk path =>
      if (disk.at? (wayOf path)).isSome then disk
      else disk.put (wayOf path) (.folder true []) (Entry.ordered_of_entries_eq_nil rfl))
    disk

mutual

/-- The files of an entry that is reached by a way, with their ways, in the order of names.  Links
are not followed, and folders with a name that is to be skipped are passed over with all that they
hold. -/
def filesOf (skip : EntryName → Bool) (way : Way) : Entry → List (Way × StoredFile)
  | .file stored => [(way, stored)]
  | .folder _ entries => filesAmong skip way entries
  | .link _ => []
  | .special => []

/-- The files of the entries of a folder that is reached by a way, with their ways, in the order of
names. -/
def filesAmong (skip : EntryName → Bool) (way : Way) :
    List (EntryName × Entry) → List (Way × StoredFile)
  | [] => []
  | (name, entry) :: rest =>
    (if entry.isFolder && skip name then [] else filesOf skip (way ++ [name]) entry) ++
      filesAmong skip way rest

end

/-- All files with their ways. -/
def files (disk : Disk) : List (Way × StoredFile) :=
  filesOf (fun _ => false) [] disk.root

/-- The files of `after` that `before` has not, or has with another content. -/
def changes (before after : Disk) : List (Way × StoredFile) :=
  let old := before.files
  after.files.filter fun (way, stored) =>
    (old.lookup way).map StoredFile.content != some stored.content

/-! ## Following paths -/

/-- How many links are followed for one path. -/
def mostLinks : Nat := 40

/-- One step from a folder.  There has to be an entry where the field leads, unless the path is to
be created and this is its last name; with a slash after it, it could only mean a folder. -/
def follow (disk : Disk) (creating : Bool) (way : Way) (field : OsText) (rest : List OsText) :
    Except Fault Way :=
  match disk.at? way with
  | none => .error .notFound
  | some (.folder _ _) =>
    let next := lead way field
    if creating ∧ field.IsName ∧ ∀ other ∈ rest, other = [] then
      if rest = [] then .ok next else .error .isAFolder
    else if (disk.at? next).isSome then .ok next
    else .error .notFound
  | some _ => .error .notAFolder

/-- Follows fields from a folder, up to the first link; there `jump` goes on, from the folder that
the target of the link starts from, with the fields of the target and those that are left. -/
def pass (disk : Disk) (creating : Bool) (links : Nat)
    (jump : Way → List OsText → Except Fault (Way × Nat)) :
    Way → List OsText → Except Fault (Way × Nat)
  | way, [] => .ok (way, links)
  | way, field :: rest =>
    match disk.follow creating way field rest with
    | .error fault => .error fault
    | .ok next =>
      match disk.at? next with
      | some (.link target) => jump (origin way target) (OsText.fields target ++ rest)
      | _ => disk.pass creating links jump next rest

/-- Follows fields from a folder, and so many links among them.  The result is the way that they
lead, and how many links could still be followed. -/
def walk (disk : Disk) (creating : Bool) : Nat → Way → List OsText → Except Fault (Way × Nat)
  | 0 => disk.pass creating 0 fun _ _ => .error .tooManyLinks
  | links + 1 => disk.pass creating (links + 1) (disk.walk creating links)

/-- The way that a path leads. -/
def resolve (disk : Disk) (creating : Bool) (path : OsText) : Except Fault Way :=
  if path = [] then .error .notFound
  else (disk.walk creating mostLinks (origin disk.here path) path.fields).map Prod.fst

/-- The entry that a path leads to. -/
def open? (disk : Disk) (path : OsText) : Except Fault Entry := do
  let way ← disk.resolve false path
  match disk.at? way with
  | some entry => .ok entry
  | none => .error .notFound

/-- Does a path lead to a file? -/
def isFile (disk : Disk) (path : OsText) : Bool :=
  match disk.open? path with
  | .ok (.file _) => true
  | _ => false

/-- Does the last name of a path stand for a link? -/
def isLink (disk : Disk) (path : OsText) : Bool :=
  let fields := path.fields
  match disk.walk false mostLinks (origin disk.here path) fields.dropLast,
      fields.getLast?.bind EntryName.ofBytes? with
  | .ok (way, _), some name =>
    match disk.at? (way ++ [name]) with
    | some (.link _) => true
    | _ => false
  | _, _ => false

/-! ## Reading and writing -/

/-- The content of the file that a path leads to. -/
def read (disk : Disk) (path : OsText) : Except Fault ByteArray := do
  match ← disk.open? path with
  | .file stored => if stored.canRead then .ok stored.content else .error .denied
  | .folder _ _ => .error .isAFolder
  | _ => .error .noDevice

/-- The text of the file that a path leads to. -/
def readText (disk : Disk) (path : OsText) : Except Fault String := do
  match String.fromUTF8? (← disk.read path) with
  | some text => .ok text
  | none => .error .invalidText

/-- The file at a way as it is before it is written, or a new one if there is none. -/
def writable (disk : Disk) (way : Way) : Except Fault StoredFile :=
  match disk.at? way with
  | some (.file stored) => if stored.canWrite then .ok stored else .error .denied
  | some (.folder _ _) => .error .isAFolder
  | some _ => .error .noDevice
  | none =>
    if (disk.at? way.dropLast).all Entry.canAdd then .ok { content := .empty } else .error .denied

/-- Writes the file at a way.  If there is not room for the whole content, the file is left with what
there is room for. -/
def writeAt (disk : Disk) (way : Way) (content : ByteArray) : Disk × Option Fault :=
  match disk.writable way with
  | .error fault => (disk, some fault)
  | .ok stored =>
    let room := disk.largest.getD content.size
    let written := { stored with content := content.extract 0 room }
    (disk.putFile way written,
      if content.size ≤ room then none else some .tooLarge)

/-- Writes the file that a path leads to, which need not be there yet. -/
def write (disk : Disk) (path : OsText) (content : ByteArray) : Disk × Option Fault :=
  match disk.resolve true path with
  | .error fault => (disk, some fault)
  | .ok way => disk.writeAt way content

end Disk

end CppDeps
