/-!
# JSON values

A JSON value is a tree.  The members of an object keep the order in which they are written, and a
number that is written with a fraction or an exponent is told apart from an integer.

The second half of this module reads parts of values: counts, texts, lists, and the members of a
record.  A record may be written as an object, whose unknown members are passed over, or as the
array of its members in order.
-/

namespace CppDeps

/-- A JSON value. -/
inductive Json where
  | null
  | bool (value : Bool)
  | integer (value : Int)
  /-- A number with a fraction or an exponent, as written. -/
  | decimal (text : String)
  | string (value : String)
  | array (items : List Json)
  | object (members : List (String × Json))
  deriving Inhabited

namespace Json

/-! ## Writing -/

/-- A count. -/
def count (n : Nat) : Json :=
  .integer n

/-- A list of texts. -/
def strings (texts : List String) : Json :=
  .array (texts.map .string)

/-- A value that may be missing, written as `null` then. -/
def option {α : Type} (encode : α → Json) : Option α → Json
  | none => .null
  | some value => encode value

/-! ## Reading -/

/-- The first number that is no count. -/
def countBound : Nat := 18446744073709551616

/-- Reads a count: an integer from 0 to the bound. -/
def count? : Json → Option Nat
  | .integer n => if 0 ≤ n ∧ n.toNat < countBound then some n.toNat else none
  | _ => none

/-- Reads a truth value. -/
def bool? : Json → Option Bool
  | .bool value => some value
  | _ => none

/-- Reads a text. -/
def string? : Json → Option String
  | .string value => some value
  | _ => none

/-- Reads a list. -/
def list? {α : Type} (decode : Json → Option α) : Json → Option (List α)
  | .array items => items.mapM decode
  | _ => none

/-- Reads a list of texts. -/
def strings? : Json → Option (List String) :=
  list? string?

/-- Reads the name of a variant: a text, or an object whose one member has that name and the value
`null`. -/
def variant? : Json → Option String
  | .string name => some name
  | .object [(name, .null)] => some name
  | _ => none

/-- The members that a record is written with. -/
abbrev Record := List (String × Json)

/-- Reads a record with the given members, all of them present where it is written as an array. -/
def record? (names : List String) : Json → Option Record
  | .object members => some members
  | .array items => if items.length = names.length then some (names.zip items) else none
  | _ => none

/-- Reads a record that may leave members out. -/
def partialRecord? (names : List String) : Json → Option Record
  | .object members => some members
  | .array items => if items.length ≤ names.length then some (names.zip items) else none
  | _ => none

namespace Record

variable {α : Type}

/-- Reads a member that has to be there. -/
def required? (record : Record) (name : String) (decode : Json → Option α) : Option α :=
  (record.lookup name).bind decode

/-- Reads a member that may be absent or `null`. -/
def optional? (record : Record) (name : String) (decode : Json → Option α) :
    Option (Option α) :=
  match record.lookup name with
  | none => some none
  | some .null => some none
  | some value => (decode value).map some

/-- Reads a member that takes a default if it is absent. -/
def defaulted? (record : Record) (name : String) (default : α) (decode : Json → Option α) :
    Option α :=
  match record.lookup name with
  | none => some default
  | some value => decode value

end Record

end Json

end CppDeps
