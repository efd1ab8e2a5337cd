/-!
# Text

Searching, trimming and joining of strings, their bytes, and the numbers that digits stand for.  A
string is read through its list of characters, so that every function here is a function on lists and
its laws are laws of lists.
-/

namespace CppDeps

namespace Text

/-! ## Searching and trimming -/

/-- Is `ending` the last part of `s`? -/
def endsWith (s ending : String) : Bool :=
  ending.toList.isSuffixOf s.toList

theorem endsWith_iff {s ending : String} :
    endsWith s ending = true ↔ ending.toList <:+ s.toList :=
  List.isSuffixOf_iff_suffix

/-- Does `part` start at the beginning of `s` or at some later character of it? -/
def occursIn (part : List Char) : List Char → Bool
  | [] => part.isEmpty
  | c :: s => part.isPrefixOf (c :: s) || occursIn part s

/-- Does `part` occur in `s`? -/
def contains (s part : String) : Bool :=
  occursIn part.toList s.toList

/-- The string without the characters of class `p` at either end. -/
def trimBoth (p : Char → Bool) (s : String) : String :=
  String.ofList ((s.toList.dropWhile p).reverse.dropWhile p).reverse

/-- The white space of Unicode: tabs, line ends, the ASCII and no-break spaces and the wider
spaces. -/
def isBlank (c : Char) : Bool :=
  ('\t' ≤ c && c ≤ '\r') || c == ' ' || c == '\u0085' || c == '\u00a0' || c == '\u1680' ||
    ('\u2000' ≤ c && c ≤ '\u200a') || c == '\u2028' || c == '\u2029' || c == '\u202f' ||
    c == '\u205f' || c == '\u3000'

/-- The string without white space at either end. -/
def trim (s : String) : String :=
  trimBoth isBlank s

/-- Of a reversed text, what lies beyond the first `::`. -/
def beyondColons : List Char → Option (List Char)
  | [] => none
  | [_] => none
  | c :: d :: s => if c = ':' ∧ d = ':' then some s else beyondColons (d :: s)

/-- The text before the last `::`, if there is one. -/
def beforeLastColons (s : String) : Option String :=
  (beyondColons s.toList.reverse).map fun t => String.ofList t.reverse

/-- Joins two lists, such as the characters of two paths, with one slash between them where none is
there yet.  A second list that starts with a slash stands for itself. -/
def joinAt {α : Type} [DecidableEq α] (slash : α) (base name : List α) : List α :=
  if name.head? = some slash ∨ base = [] then name
  else if base.getLast? = some slash then base ++ name
  else base ++ slash :: name

/-- The bytes of a text. -/
def bytes (s : String) : List UInt8 :=
  s.toUTF8.data.toList

/-! ## Digits -/

/-- The value of a decimal or hexadecimal digit. -/
def digitValue? (c : Char) : Option Nat :=
  if c.isDigit then some (c.toNat - '0'.toNat)
  else if 'a' ≤ c ∧ c ≤ 'f' then some (c.toNat - 'a'.toNat + 10)
  else if 'A' ≤ c ∧ c ≤ 'F' then some (c.toNat - 'A'.toNat + 10)
  else none

/-- The number that digits stand for to a base, the first digit counting most. -/
def valueOf (base : Nat) (digits : List Char) : Nat :=
  digits.foldl (fun n c => base * n + (digitValue? c).getD 0) 0

end Text

end CppDeps
