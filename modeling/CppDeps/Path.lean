import CppDeps.Text

/-!
# Paths

A path is a list of parts separated by slashes.  Repeated slashes, a slash at the end and a `.`
after the first part say nothing, so reading a path drops them; a `.` at the start of a relative
path stays a part of its own.

Besides reading and writing this module folds `.` and `..` away (`Path.normalize`), joins a path
to a directory (`Path.join`), and finds the last name of a path and the name of the directory around
it.
-/

namespace CppDeps

/-- One part of a path: the directory itself, the directory above, or a name. -/
inductive Path.Part
  | here
  | up
  | name (text : String)
  deriving DecidableEq, Repr

/-- A path, below the root of the file system or below a directory that is understood. -/
structure Path where
  isAbsolute : Bool
  parts : List Path.Part
  deriving DecidableEq, Repr

namespace Path

/-! ## Reading and writing -/

/-- The part that a field between two slashes stands for; an empty field and `.` stand for
none. -/
def Part.ofField? : List Char → Option Part
  | [] => none
  | ['.'] => none
  | ['.', '.'] => some .up
  | field => some (.name (String.ofList field))

/-- The text of a part. -/
def Part.text : Part → String
  | .here => "."
  | .up => ".."
  | .name s => s

/-- The parts between the slashes of a text; only a `.` in first place is kept. -/
def partsOf (fields : List (List Char)) : List Part :=
  let parts := fields.filterMap Part.ofField?
  if fields.head? = some ['.'] then .here :: parts else parts

/-- Reads a path. -/
def parse (s : String) : Path where
  isAbsolute := s.toList.head? == some '/'
  parts := partsOf (s.toList.splitOn '/')

/-- Writes a path, with one slash between parts. -/
def render (p : Path) : String :=
  (if p.isAbsolute then "/" else "") ++ "/".intercalate (p.parts.map Part.text)

/-! ## Names -/

/-- The name at the end of a path; none if the path ends in `.` or `..`, is the root or is
empty. -/
def fileName? (p : Path) : Option String :=
  match p.parts.getLast? with
  | some (.name s) => some s
  | _ => none

/-- The path without its last part; none if it has no part. -/
def parent? (p : Path) : Option Path :=
  if p.parts.isEmpty then none else some { p with parts := p.parts.dropLast }

/-- The name at the end of a path, or the whole path if it ends in no name. -/
def basename (path : String) : String :=
  (parse path).fileName?.getD path

/-- The name of the directory around a file, or `root` if it has none. -/
def group (path : String) : String :=
  ((parse path).parent?.bind fileName?).getD "root"

/-! ## Joining and folding -/

/-- The path `q` seen from the directory `p`. -/
def join (p q : Path) : Path :=
  if q.isAbsolute then q
  else if !p.isAbsolute && p.parts.isEmpty then q
  else { p with parts := p.parts ++ q.parts.filter (· != .here) }

/-- Adds a part to a stack of folded parts, the innermost first: `.` adds nothing and `..` takes
the innermost name away.  Above the root there is only the root. -/
def fold (isAbsolute : Bool) (stack : List Part) : Part → List Part
  | .here => stack
  | .name s => .name s :: stack
  | .up =>
    match stack with
    | .name _ :: below => below
    | _ => if isAbsolute then stack else .up :: stack

/-- The path with `.` and `..` folded away as far as its text allows. -/
def normalize (p : Path) : Path where
  isAbsolute := p.isAbsolute
  parts := (p.parts.foldl (fold p.isAbsolute) []).reverse

/-- The names that are left of a path after folding. -/
def names (p : Path) : List String :=
  p.normalize.parts.filterMap fun part =>
    match part with
    | .name s => some s
    | _ => none

/-- Joins two paths as texts: an absolute `name` stands for itself, and one slash is put between
the two where none is there yet. -/
def joinText (base name : String) : String :=
  String.ofList (Text.joinAt '/' base.toList name.toList)

end Path

end CppDeps
