/-!
# TOML values

A TOML document is a table of values.  A table remembers how it came about, because that decides
which later lines may still add to it: a header opens a table once, a table that was only passed
through on the way to another may still get a header of its own, a table made by a dotted key grows
by further dotted keys, and an inline table is complete as it stands.
-/

namespace CppDeps

namespace Toml

/-- How a table came about. -/
inductive Origin
  | header
  | passed
  | dotted
  | inline
  deriving DecidableEq, Repr

end Toml

/-- A TOML value. -/
inductive Toml where
  | string (text : String)
  | integer (value : Int)
  /-- A number with a fraction or an exponent, or one of the special numbers. -/
  | float
  | boolean (value : Bool)
  /-- A date, a time of day, or both. -/
  | datetime
  | array (items : List Toml)
  | table (origin : Toml.Origin) (entries : List (String × Toml))
  /-- The tables of an array that grows by headers. -/
  | tables (items : List (List (String × Toml)))
  deriving Inhabited

namespace Toml

/-- The entries of a table by key, in the order in which they were added. -/
abbrev Entries := List (String × Toml)

/-- Gives a key its value: at its place if the table has the key, at the end otherwise. -/
def setKey (key : String) (value : Toml) : Entries → Entries
  | [] => [(key, value)]
  | entry :: rest =>
    if entry.1 = key then (key, value) :: rest else entry :: setKey key value rest

/-- Changes the table at the end of a way of keys, making the tables on the way where they are
missing.  A way of dotted keys does not enter a table that has a header, and no way enters an inline
table; in an array of tables it enters the last one. -/
def updateAt (dotted : Bool) (change : Origin → Entries → Option Entries) :
    List String → Origin → Entries → Option Entries
  | [], origin, entries => change origin entries
  | key :: way, _, entries =>
    match entries.lookup key with
    | none =>
      let origin := if dotted then Origin.dotted else Origin.passed
      (updateAt dotted change way origin []).map fun inner =>
        setKey key (.table origin inner) entries
    | some (.table origin inner) =>
      if origin = .inline ∨ (dotted ∧ origin = .header) then none
      else
        (updateAt dotted change way origin inner).map fun inner =>
          setKey key (.table origin inner) entries
    | some (.tables items) =>
      match items.getLast? with
      | none => none
      | some last =>
        (updateAt dotted change way .header last).map fun last =>
          setKey key (.tables (items.dropLast ++ [last])) entries
    | some _ => none

/-- Adds a value under dotted keys, the last of which is `key`.  The table of that key is one that
the dotted keys lead to, and has no such key yet. -/
def addValue (way : List String) (key : String) (value : Toml) (origin : Origin)
    (entries : Entries) : Option Entries :=
  updateAt true
    (fun origin inner =>
      if (origin == .dotted) == way.isEmpty then none
      else if (inner.lookup key).isSome then none
      else some (setKey key value inner))
    way origin entries

/-- Opens the table of a header. -/
def openTable (way : List String) (key : String) (entries : Entries) : Option Entries :=
  updateAt false
    (fun _ inner =>
      match inner.lookup key with
      | none => some (setKey key (.table .header []) inner)
      | some (.table .passed old) => some (setKey key (.table .header old) inner)
      | some _ => none)
    way .header entries

/-- Opens one more table of an array of tables. -/
def openTables (way : List String) (key : String) (entries : Entries) : Option Entries :=
  updateAt false
    (fun _ inner =>
      match inner.lookup key with
      | none => some (setKey key (.tables [[]]) inner)
      | some (.tables items) => some (setKey key (.tables (items ++ [[]])) inner)
      | some _ => none)
    way .header entries

end Toml

end CppDeps
