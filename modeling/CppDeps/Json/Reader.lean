import CppDeps.Json.Basic
import CppDeps.Text

/-!
# Reading JSON text

A reader takes a list of characters and gives what it has read with the characters that are left.
The readers of nested values carry a bound on their depth of recursion, which the number of
characters meets.
-/

namespace CppDeps

namespace Json

namespace Reader

/-! ## Words, numbers and texts -/

/-- Skips blanks and line ends. -/
def skipBlanks (s : List Char) : List Char :=
  s.dropWhile fun c => c == ' ' || c == '\n' || c == '\r' || c == '\t'

/-- A fraction: a dot and at least one digit, or nothing. -/
def fraction? (s : List Char) : Option (List Char × List Char) :=
  match s with
  | '.' :: rest =>
    let digits := rest.takeWhile Char.isDigit
    if digits.isEmpty then none else some ('.' :: digits, rest.dropWhile Char.isDigit)
  | _ => some ([], s)

/-- An exponent: its mark, a sign if there is one, and at least one digit; or nothing. -/
def exponent? (s : List Char) : Option (List Char × List Char) :=
  match s with
  | mark :: rest =>
    if mark = 'e' ∨ mark = 'E' then
      let sign := rest.take 1 |>.filter fun c => c == '+' || c == '-'
      let rest := rest.drop sign.length
      let digits := rest.takeWhile Char.isDigit
      if digits.isEmpty then none
      else some (mark :: sign ++ digits, rest.dropWhile Char.isDigit)
    else some ([], s)
  | [] => some ([], [])

/-- Reads a number without its sign.  A zero in front stands alone, and the negative zero is no
integer. -/
def number? (negative : Bool) (s : List Char) : Option (Json × List Char) := do
  let digits := s.takeWhile Char.isDigit
  if digits.isEmpty || (digits.head? == some '0' && digits.length != 1) then none
  let (fraction, s) ← fraction? (s.dropWhile Char.isDigit)
  let (exponent, s) ← exponent? s
  let value := Text.valueOf 10 digits
  if fraction.isEmpty && exponent.isEmpty && !(negative && value == 0) then
    some (.integer (if negative then -value else value), s)
  else
    let sign := if negative then ['-'] else []
    some (.decimal (String.ofList (sign ++ digits ++ fraction ++ exponent)), s)

/-- The number that four hexadecimal digits stand for. -/
def hexQuad? : List Char → Option (Nat × List Char)
  | a :: b :: c :: d :: s => do
    let a ← Text.digitValue? a
    let b ← Text.digitValue? b
    let c ← Text.digitValue? c
    let d ← Text.digitValue? d
    some (((a * 16 + b) * 16 + c) * 16 + d, s)
  | _ => none

/-- The character of an escape given by its number, joined with the escape after it where the two
are halves of one character. -/
def escapedUnit? (s : List Char) : Option (Char × List Char) := do
  let (unit, s) ← hexQuad? s
  if 0xD800 ≤ unit ∧ unit < 0xDC00 then
    match s with
    | '\\' :: 'u' :: s => do
      let (low, s) ← hexQuad? s
      if 0xDC00 ≤ low ∧ low < 0xE000 then
        some (Char.ofNat (0x10000 + (unit - 0xD800) * 0x400 + (low - 0xDC00)), s)
      else none
    | _ => none
  else if 0xDC00 ≤ unit ∧ unit < 0xE000 then none
  else some (Char.ofNat unit, s)

/-- The character of an escape, without its backslash. -/
def escaped? : List Char → Option (Char × List Char)
  | 'b' :: s => some ('\x08', s)
  | 'f' :: s => some ('\x0c', s)
  | 'n' :: s => some ('\n', s)
  | 'r' :: s => some ('\r', s)
  | 't' :: s => some ('\t', s)
  | 'u' :: s => escapedUnit? s
  | c :: s => if c = '"' ∨ c = '\\' ∨ c = '/' then some (c, s) else none
  | [] => none

/-- Reads the rest of a text up to its closing quote; `seen` is what was read, the last character
first. -/
def text? : Nat → List Char → List Char → Option (String × List Char)
  | 0, _, _ => none
  | _, _, [] => none
  | fuel + 1, seen, c :: s =>
    if c = '"' then some (String.ofList seen.reverse, s)
    else if c = '\\' then
      match escaped? s with
      | some (c, s) => text? fuel (c :: seen) s
      | none => none
    else if c.toNat < 0x20 then none
    else text? fuel (c :: seen) s

/-! ## Values -/

/-- Puts a member in front of the members after it.  Of two members of one name the later one
counts. -/
def addMember (name : String) (value : Json) (members : List (String × Json)) :
    List (String × Json) :=
  if (members.map Prod.fst).contains name then members else (name, value) :: members

mutual

/-- Reads a value after blanks. -/
def value? : Nat → List Char → Option (Json × List Char)
  | 0, _ => none
  | fuel + 1, s =>
    match skipBlanks s with
    | 'n' :: 'u' :: 'l' :: 'l' :: s => some (.null, s)
    | 't' :: 'r' :: 'u' :: 'e' :: s => some (.bool true, s)
    | 'f' :: 'a' :: 'l' :: 's' :: 'e' :: s => some (.bool false, s)
    | '"' :: s => (text? (s.length + 1) [] s).map fun (text, s) => (.string text, s)
    | '[' :: s =>
      match skipBlanks s with
      | ']' :: s => some (.array [], s)
      | s => (items? fuel s).map fun (items, s) => (.array items, s)
    | '\x7b' :: s =>
      match skipBlanks s with
      | '\x7d' :: s => some (.object [], s)
      | s => (members? fuel s).map fun (members, s) => (.object members, s)
    | '-' :: s => number? true s
    | s => number? false s

/-- Reads the items of an array up to its closing bracket. -/
def items? : Nat → List Char → Option (List Json × List Char)
  | 0, _ => none
  | fuel + 1, s =>
    match value? fuel s with
    | none => none
    | some (item, s) =>
      match skipBlanks s with
      | ',' :: s => (items? fuel s).map fun (items, s) => (item :: items, s)
      | ']' :: s => some ([item], s)
      | _ => none

/-- Reads the members of an object up to its closing brace. -/
def members? : Nat → List Char → Option (List (String × Json) × List Char)
  | 0, _ => none
  | fuel + 1, s =>
    match skipBlanks s with
    | '"' :: s =>
      match text? (s.length + 1) [] s with
      | none => none
      | some (name, s) =>
        match skipBlanks s with
        | ':' :: s =>
          match value? fuel s with
          | none => none
          | some (value, s) =>
            match skipBlanks s with
            | ',' :: s => (members? fuel s).map fun (members, s) => (addMember name value members, s)
            | '\x7d' :: s => some ([(name, value)], s)
            | _ => none
        | _ => none
    | _ => none

end

end Reader

/-- Reads a JSON text. -/
def parse? (text : String) : Option Json :=
  let s := text.toList
  match Reader.value? (2 * s.length + 1) s with
  | some (value, rest) => if (Reader.skipBlanks rest).isEmpty then some value else none
  | none => none

end Json

end CppDeps
