import CppDeps.Text

/-!
# Texts of the operating system

The words of a command line and the names of files are any bytes, not always those of a text.  Where
they have to be shown, the bytes that belong to no character are replaced (`OsText.lossy`): the
bytes are read one after the other, and whenever a byte cannot follow those of the character that
was begun, what was read of that character counts as one replacement.

A path is cut into fields at its slashes.  Fields, names and extensions are bytes as well.
-/

namespace CppDeps

/-- A word, a name or a path as the operating system has it. -/
abbrev OsText := List UInt8

namespace OsText

/-- The byte of a slash. -/
def slash : UInt8 := 0x2f

/-- The byte of a dot. -/
def dot : UInt8 := 0x2e

/-! ## Characters -/

/-- The text of bytes, if they are those of a text. -/
def toText? (s : OsText) : Option String :=
  String.fromUTF8? ⟨s.toArray⟩

/-- A character whose first bytes were read: the number that they stand for, how many bytes have to
come after the next one, and between which bounds the next one has to be.  No byte of ASCII can be
the next one. -/
structure OpenChar where
  value : Nat
  later : Nat
  least : UInt8 := 0x80
  greatest : UInt8 := 0xbf
  le_least : 0x80 ≤ least := by decide
  deriving DecidableEq

/-- The character of several bytes that a byte begins.  The bounds of the second byte leave out
numbers that fewer bytes stand for, the surrogates, and what is beyond the last character. -/
def openChar? (byte : UInt8) : Option OpenChar :=
  let n := byte.toNat
  if 0xc2 ≤ n ∧ n ≤ 0xdf then some { value := n - 0xc0, later := 0 }
  else if n = 0xe0 then some { value := 0, later := 1, least := 0xa0 }
  else if n = 0xed then some { value := 13, later := 1, greatest := 0x9f }
  else if 0xe1 ≤ n ∧ n ≤ 0xef then some { value := n - 0xe0, later := 1 }
  else if n = 0xf0 then some { value := 0, later := 2, least := 0x90 }
  else if 0xf1 ≤ n ∧ n ≤ 0xf3 then some { value := n - 0xf0, later := 2 }
  else if n = 0xf4 then some { value := 4, later := 2, greatest := 0x8f }
  else none

/-- Reads a byte at the start of a character: what is complete with it, a character or the place of
one that is broken, and what is open after it. -/
def start (byte : UInt8) : List (Option Char) × Option OpenChar :=
  if byte.toNat < 0x80 then ([some (Char.ofNat byte.toNat)], none)
  else
    match openChar? byte with
    | some begun => ([], some begun)
    | none => ([none], none)

/-- Reads a byte after what is open.  A byte that cannot be the next one breaks the open character
and starts another. -/
def next (state : Option OpenChar) (byte : UInt8) : List (Option Char) × Option OpenChar :=
  match state with
  | none => start byte
  | some begun =>
    if begun.least ≤ byte ∧ byte ≤ begun.greatest then
      let value := 64 * begun.value + (byte.toNat - 0x80)
      match begun.later with
      | 0 => ([some (Char.ofNat value)], none)
      | later + 1 => ([], some { value, later })
    else (none :: (start byte).1, (start byte).2)

/-- The characters of bytes, with `none` in the place of each broken one. -/
def decode (state : Option OpenChar) : OsText → List (Option Char)
  | [] => state.toList.map fun _ => none
  | byte :: rest => (next state byte).1 ++ decode (next state byte).2 rest

/-- The text of bytes, in which replacement characters stand for the broken ones. -/
def lossy (s : OsText) : String :=
  String.ofList ((decode none s).map fun c => c.getD '\uFFFD')

/-! ## Paths -/

/-- What stands between the slashes of a path. -/
def fields (path : OsText) : List OsText :=
  path.splitOn slash

/-- Does a path start at the root? -/
def isAbsolute (path : OsText) : Bool :=
  path.head? == some slash

/-- The path `name` seen from the directory `base`. -/
def join (base name : OsText) : OsText :=
  Text.joinAt slash base name

/-- What follows the last slash of a path. -/
def fileName (path : OsText) : OsText :=
  (path.reverse.takeWhile (· != slash)).reverse

/-- What leads to the directory of a file: the path up to its last slash. -/
def directory (path : OsText) : OsText :=
  (path.reverse.dropWhile (· != slash)).reverse

/-- What follows the last dot of a name.  A dot that starts the name begins no extension. -/
def extension? (name : OsText) : Option OsText :=
  match name.reverse.dropWhile (· != dot) with
  | _ :: _ :: _ => some (name.reverse.takeWhile (· != dot)).reverse
  | _ => none

end OsText

end CppDeps
