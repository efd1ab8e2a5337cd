import CppDeps.Text
import CppDeps.Toml.Basic

/-!
# Reading TOML

A reader takes a list of characters and gives what it has read with the characters that are left, or
nothing where the text is no TOML.  The readers of nested values carry a bound on their depth of
recursion, which the number of characters meets.  Values nest less than eighty levels deep, and a
key has fewer than eighty parts.
-/

namespace CppDeps

namespace Toml

namespace Reader

/-! ## Blanks, comments and line ends -/

/-- Is a character blank within a line? -/
def isBlank (c : Char) : Bool :=
  c == ' ' || c == '\t'

/-- May a character stand in a comment or a literal text?  All but the control characters may. -/
def isPlain (c : Char) : Bool :=
  c == '\t' || (' ' ≤ c && c != '\x7f')

/-- Skips blanks within a line. -/
def skipBlanks (s : List Char) : List Char :=
  s.dropWhile isBlank

/-- Skips one line end. -/
def newline? : List Char → Option (List Char)
  | '\n' :: s => some s
  | '\r' :: '\n' :: s => some s
  | _ => none

/-- Skips blanks, line ends and comments; at first inside a comment if `inComment` holds. -/
def skipLines (inComment : Bool) : List Char → List Char
  | [] => []
  | '\r' :: '\n' :: s => skipLines false s
  | c :: s =>
    if c = '\n' then skipLines false s
    else if inComment then if isPlain c then skipLines true s else c :: s
    else if isBlank c then skipLines false s
    else if c = '#' then skipLines true s
    else c :: s

/-- Skips what may follow a statement on its line, and the line end. -/
def lineEnd? (s : List Char) : Option (List Char) :=
  let s :=
    match skipBlanks s with
    | '#' :: s => s.dropWhile isPlain
    | s => s
  if s.isEmpty then some [] else newline? s

/-! ## Texts -/

/-- The character whose number is given by `count` hexadecimal digits. -/
def codePoint? (count : Nat) (s : List Char) : Option (Char × List Char) :=
  let digits := s.take count
  let code := Text.valueOf 16 digits
  if digits.length = count ∧ digits.all (fun c => (Text.digitValue? c).isSome) ∧
      code.isValidChar then
    some (Char.ofNat code, s.drop count)
  else none

/-- The character of an escape, without its backslash. -/
def escaped? : List Char → Option (Char × List Char)
  | 'b' :: s => some ('\x08', s)
  | 't' :: s => some ('\t', s)
  | 'n' :: s => some ('\n', s)
  | 'f' :: s => some ('\x0c', s)
  | 'r' :: s => some ('\r', s)
  | '"' :: s => some ('"', s)
  | '\\' :: s => some ('\\', s)
  | 'u' :: s => codePoint? 4 s
  | 'U' :: s => codePoint? 8 s
  | _ => none

/-- Reads the rest of a text of one line up to its closing quote; `seen` is what was read, the last
character first. -/
def basicText? : Nat → List Char → List Char → Option (String × List Char)
  | 0, _, _ => none
  | _, _, [] => none
  | fuel + 1, seen, c :: s =>
    if c = '"' then some (String.ofList seen.reverse, s)
    else if c = '\\' then
      match escaped? s with
      | some (c, s) => basicText? fuel (c :: seen) s
      | none => none
    else if isPlain c then basicText? fuel (c :: seen) s
    else none

/-- Reads the rest of a literal text of one line up to its closing quote. -/
def literalText? (s : List Char) : Option (String × List Char) :=
  let inner := s.takeWhile fun c => isPlain c && c != '\''
  match s.drop inner.length with
  | '\'' :: rest => some (String.ofList inner, rest)
  | _ => none

/-- Skips blanks and line ends. -/
def skipBlankLines : List Char → List Char
  | [] => []
  | '\r' :: '\n' :: s => skipBlankLines s
  | c :: s => if isBlank c || c == '\n' then skipBlankLines s else c :: s

/-- Skips the rest of a line that ends in a backslash and all blanks and line ends after it; none if
the backslash does not end its line. -/
def joinedLines? (s : List Char) : Option (List Char) :=
  (newline? (skipBlanks s)).map skipBlankLines

/-- Reads the rest of a text of several lines up to its three closing quotes; up to two more quotes
in front of them belong to the text.  Escapes are read only where `escapes` holds. -/
def longText? (quote : Char) (escapes : Bool) :
    Nat → List Char → List Char → Option (String × List Char)
  | 0, _, _ => none
  | _, _, [] => none
  | fuel + 1, seen, c :: s =>
    if c = quote then
      let quotes := (c :: s).takeWhile (· == quote)
      let rest := (c :: s).dropWhile (· == quote)
      if quotes.length < 3 then longText? quote escapes fuel (quotes ++ seen) rest
      else if quotes.length < 6 then
        some (String.ofList (quotes.drop 3 ++ seen).reverse, rest)
      else none
    else if escapes && c == '\\' then
      match joinedLines? s with
      | some s => longText? quote escapes fuel seen s
      | none =>
        match escaped? s with
        | some (c, s) => longText? quote escapes fuel (c :: seen) s
        | none => none
    else
      match newline? (c :: s) with
      | some s => longText? quote escapes fuel ('\n' :: seen) s
      | none => if isPlain c then longText? quote escapes fuel (c :: seen) s else none

/-- Reads a text of several lines after its opening quotes.  A line end right after them does not
belong to it. -/
def openedLongText? (quote : Char) (escapes : Bool) (s : List Char) :
    Option (String × List Char) :=
  longText? quote escapes (s.length + 1) [] ((newline? s).getD s)

/-- Reads a text of any of the four forms. -/
def text? : List Char → Option (String × List Char)
  | '"' :: '"' :: '"' :: s => openedLongText? '"' true s
  | '\'' :: '\'' :: '\'' :: s => openedLongText? '\'' false s
  | '"' :: s => basicText? (s.length + 1) [] s
  | '\'' :: s => literalText? s
  | _ => none

/-! ## Keys -/

/-- May a character stand in a key without quotes? -/
def isKeyChar (c : Char) : Bool :=
  c.isAlphanum || c == '-' || c == '_'

/-- Reads one part of a key. -/
def keyPart? : List Char → Option (String × List Char)
  | '"' :: s => basicText? (s.length + 1) [] s
  | '\'' :: s => literalText? s
  | s =>
    let part := s.takeWhile isKeyChar
    if part.isEmpty then none else some (String.ofList part, s.dropWhile isKeyChar)

/-- Reads the parts of a key between dots, with blanks around each. -/
def keyParts? : Nat → List Char → Option (List String × List Char)
  | 0, _ => none
  | fuel + 1, s =>
    match keyPart? (skipBlanks s) with
    | none => none
    | some (part, s) =>
      match skipBlanks s with
      | '.' :: s => (keyParts? fuel s).map fun (parts, s) => (part :: parts, s)
      | s => some ([part], s)

/-- Reads a key: the parts before the last, and the last. -/
def key? (s : List Char) : Option (List String × String × List Char) := do
  let (parts, s) ← keyParts? (s.length + 1) s
  if parts.length < 80 then
    let last ← parts.getLast?
    some (parts.dropLast, last, s)
  else none

/-! ## Numbers -/

/-- Reads digits; one underscore may stand between two of them. -/
def digitRun (isDigit : Char → Bool) : List Char → List Char × List Char
  | [] => ([], [])
  | [c] => if isDigit c then ([c], []) else ([], [c])
  | c :: d :: s =>
    if isDigit c then
      let (digits, rest) := digitRun isDigit (d :: s)
      (c :: digits, rest)
    else if c = '_' ∧ isDigit d then
      let (digits, rest) := digitRun isDigit s
      (d :: digits, rest)
    else ([], c :: d :: s)

/-- Reads digits of which the first is no underscore. -/
def digits? (isDigit : Char → Bool) (s : List Char) : Option (List Char × List Char) :=
  match s with
  | c :: _ => if isDigit c then some (digitRun isDigit s) else none
  | [] => none

/-- Reads a sign: is it a minus? -/
def sign : List Char → Bool × List Char
  | '+' :: s => (false, s)
  | '-' :: s => (true, s)
  | s => (false, s)

/-- Reads the digits of a decimal integer.  A zero in front stands alone. -/
def decimalDigits? : List Char → Option (List Char × List Char)
  | '0' :: s => some (['0'], s)
  | s => digits? Char.isDigit s

/-- The first number that is no integer of a document; its negative is the least integer. -/
def integerBound : Nat := 9223372036854775808

/-- Reads a number after the mark of its base. -/
def basedInteger? (base : Nat) (isDigit : Char → Bool) (s : List Char) :
    Option (Toml × List Char) := do
  let (digits, s) ← digits? isDigit s
  let value := Text.valueOf base digits
  if value < integerBound then some (.integer value, s) else none

/-- The least number that is rounded to infinity. -/
def infinityBound : Nat :=
  Nat.pow 2 1024 - Nat.pow 2 970

/-- Is a number, given by its digits and the power of ten to multiply them with, rounded to
infinity? -/
def overflows (digits : List Char) (exponent : Int) : Bool :=
  let significant := digits.dropWhile (· == '0')
  let magnitude : Int := significant.length + exponent
  if significant.isEmpty || magnitude < 300 then false
  else if 320 < magnitude then true
  else if 0 ≤ exponent then
    infinityBound ≤ Text.valueOf 10 significant * Nat.pow 10 exponent.toNat
  else infinityBound * Nat.pow 10 (-exponent).toNat ≤ Text.valueOf 10 significant

/-- Reads a fraction: a dot with digits after it, or nothing. -/
def fraction? : List Char → Option (List Char × List Char)
  | '.' :: s => digits? Char.isDigit s
  | s => some ([], s)

/-- Reads an exponent: its mark with a sign and digits after it, or nothing. -/
def exponent? : List Char → Option (Option Int × List Char)
  | c :: s =>
    if c = 'e' ∨ c = 'E' then do
      let (negative, s) := sign s
      let (digits, s) ← digits? Char.isDigit s
      let value : Int := Text.valueOf 10 digits
      some (some (if negative then -value else value), s)
    else some (none, c :: s)
  | [] => some (none, [])

/-- Reads an integer or a number with a fraction or an exponent. -/
def decimal? (s : List Char) : Option (Toml × List Char) := do
  let (negative, s) := sign s
  let (digits, s) ← decimalDigits? s
  let (fraction, s) ← fraction? s
  let (exponent, s) ← exponent? s
  if fraction.isEmpty && exponent.isNone then
    let value : Int := Text.valueOf 10 digits
    let value := if negative then -value else value
    if -integerBound ≤ value ∧ value < integerBound then some (.integer value, s) else none
  else if !negative && overflows (digits ++ fraction) (exponent.getD 0 - fraction.length) then
    none
  else some (.float, s)

/-- Reads one of the special numbers, after its sign. -/
def special? : List Char → Option (Toml × List Char)
  | 'i' :: 'n' :: 'f' :: s => some (.float, s)
  | 'n' :: 'a' :: 'n' :: s => some (.float, s)
  | _ => none

/-! ## Dates and times -/

/-- Reads a number of `count` digits that lies between two bounds. -/
def numberBetween? (count low high : Nat) (s : List Char) : Option (Nat × List Char) :=
  let digits := s.take count
  let value := Text.valueOf 10 digits
  if digits.length = count ∧ digits.all Char.isDigit ∧ low ≤ value ∧ value ≤ high then
    some (value, s.drop count)
  else none

/-- Skips one given character. -/
def mark? (c : Char) : List Char → Option (List Char)
  | d :: s => if c = d then some s else none
  | [] => none

/-- The number of days of a month. -/
def daysIn (year month : Nat) : Nat :=
  if month = 2 then
    if year % 4 = 0 ∧ (year % 100 ≠ 0 ∨ year % 400 = 0) then 29 else 28
  else if month = 4 ∨ month = 6 ∨ month = 9 ∨ month = 11 then 30
  else 31

/-- Skips a date. -/
def date? (s : List Char) : Option (List Char) := do
  let (year, s) ← numberBetween? 4 0 9999 s
  let s ← mark? '-' s
  let (month, s) ← numberBetween? 2 1 12 s
  let s ← mark? '-' s
  let (_, s) ← numberBetween? 2 1 (daysIn year month) s
  some s

/-- Skips hours and minutes. -/
def hoursAndMinutes? (s : List Char) : Option (List Char) := do
  let (_, s) ← numberBetween? 2 0 23 s
  let s ← mark? ':' s
  let (_, s) ← numberBetween? 2 0 59 s
  some s

/-- Skips a time of day. -/
def time? (s : List Char) : Option (List Char) := do
  let s ← hoursAndMinutes? s
  let s ← mark? ':' s
  let (_, s) ← numberBetween? 2 0 60 s
  match s with
  | '.' :: s =>
    let rest := s.dropWhile Char.isDigit
    if rest.length = s.length then none else some rest
  | s => some s

/-- Skips the offset of a time, if there is one. -/
def offset? : List Char → Option (List Char)
  | c :: s =>
    if c = 'Z' ∨ c = 'z' then some s
    else if c = '+' ∨ c = '-' then hoursAndMinutes? s
    else some (c :: s)
  | [] => some []

/-- Reads a date, a time of day, or both with or without an offset. -/
def datetime? (s : List Char) : Option (Toml × List Char) :=
  match date? s with
  | some rest =>
    match rest with
    | c :: t =>
      if c = 'T' ∨ c = 't' ∨ c = ' ' then
        match time? t with
        | some t => (offset? t).map fun t => (.datetime, t)
        | none => some (.datetime, rest)
      else some (.datetime, rest)
    | [] => some (.datetime, [])
  | none => (time? s).map fun rest => (.datetime, rest)

/-! ## Values -/

/-- Reads a value that is no text, array or table. -/
def scalar? (s : List Char) : Option (Toml × List Char) :=
  match s with
  | 't' :: 'r' :: 'u' :: 'e' :: s => some (.boolean true, s)
  | 'f' :: 'a' :: 'l' :: 's' :: 'e' :: s => some (.boolean false, s)
  | '0' :: 'x' :: s => basedInteger? 16 (fun c => (Text.digitValue? c).isSome) s
  | '0' :: 'o' :: s => basedInteger? 8 (fun c => '0' ≤ c && c ≤ '7') s
  | '0' :: 'b' :: s => basedInteger? 2 (fun c => c == '0' || c == '1') s
  | s => (datetime? s).or ((special? (sign s).2).or (decimal? s))

mutual

/-- Reads a value that stands inside `depth` arrays and inline tables. -/
def value? : Nat → Nat → List Char → Option (Toml × List Char)
  | 0, _, _ => none
  | fuel + 1, depth, s =>
    match s with
    | '[' :: s =>
      if depth + 1 < 80 then (items? fuel (depth + 1) s).map fun (items, s) => (.array items, s)
      else none
    | '\x7b' :: s =>
      if depth + 1 < 80 then
        match skipBlanks s with
        | '\x7d' :: s => some (.table .inline [], s)
        | s => (pairs? fuel (depth + 1) [] s).map fun (entries, s) => (.table .inline entries, s)
      else none
    | c :: _ =>
      if c = '"' ∨ c = '\'' then (text? s).map fun (text, s) => (.string text, s) else scalar? s
    | [] => none

/-- Reads the items of an array up to its closing bracket.  A comma may follow the last one. -/
def items? : Nat → Nat → List Char → Option (List Toml × List Char)
  | 0, _, _ => none
  | fuel + 1, depth, s =>
    match skipLines false s with
    | ']' :: s => some ([], s)
    | s =>
      match value? fuel depth s with
      | none => none
      | some (item, s) =>
        match skipLines false s with
        | ',' :: s => (items? fuel depth s).map fun (items, s) => (item :: items, s)
        | ']' :: s => some ([item], s)
        | _ => none

/-- Reads the entries of an inline table up to its closing brace, and adds them to those read
before. -/
def pairs? : Nat → Nat → Entries → List Char → Option (Entries × List Char)
  | 0, _, _, _ => none
  | fuel + 1, depth, entries, s =>
    match key? s with
    | some (way, key, '=' :: s) =>
      match value? fuel depth (skipBlanks s) with
      | none => none
      | some (value, s) =>
        match addValue way key value .inline entries with
        | none => none
        | some entries =>
          match skipBlanks s with
          | ',' :: s => pairs? fuel depth entries s
          | '\x7d' :: s => some (entries, s)
          | _ => none
    | _ => none

end

/-! ## Documents -/

/-- Reads a statement `key = value` and adds it to the table of the last header. -/
def assignment? (header : List String) (document : Entries) (s : List Char) :
    Option (Entries × List Char) :=
  match key? s with
  | some (way, key, '=' :: s) => do
    let (value, s) ← value? (2 * s.length + 1) 0 (skipBlanks s)
    let s ← lineEnd? s
    let document ← updateAt false (addValue way key value) header .header document
    some (document, s)
  | _ => none

/-- Reads a header after its opening bracket, or its two opening brackets where `many` holds, and
opens its table. -/
def header? (many : Bool) (document : Entries) (s : List Char) :
    Option (List String × Entries × List Char) := do
  let (way, key, s) ← key? s
  let s ← mark? ']' s
  let s ← if many then mark? ']' s else some s
  let s ← lineEnd? s
  let document ← if many then openTables way key document else openTable way key document
  some (way ++ [key], document, s)

/-- Reads the statements of a document. -/
def statements? : Nat → List String → Entries → List Char → Option Entries
  | 0, _, _, _ => none
  | fuel + 1, header, document, s =>
    match skipBlanks s with
    | [] => some document
    | '[' :: '[' :: s =>
      match header? true document s with
      | some (header, document, s) => statements? fuel header document s
      | none => none
    | '[' :: s =>
      match header? false document s with
      | some (header, document, s) => statements? fuel header document s
      | none => none
    | c :: s =>
      if c = '\n' ∨ c = '\r' ∨ c = '#' then
        match lineEnd? (c :: s) with
        | some s => statements? fuel header document s
        | none => none
      else
        match assignment? header document (c :: s) with
        | some (document, s) => statements? fuel header document s
        | none => none

end Reader

/-- Reads a TOML document.  A byte order mark in front of it is skipped. -/
def parse? (text : String) : Option Toml :=
  let s :=
    match text.toList with
    | '\ufeff' :: s => s
    | s => s
  (Reader.statements? (s.length + 1) [] [] s).map (.table .header)

end Toml

end CppDeps
