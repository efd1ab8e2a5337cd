import CppDeps.Json.Basic
import CppDeps.SyntaxTree.Rows

/-!
# Syntax trees as JSON

A syntax tree is written as the array of its nodes in preorder.  A node is an array of the number of
its parent or `null`, its kind, its field or `null`, whether it is named (1 or 0), the bytes it
spans, and its first and last line counted from 0.
-/

namespace CppDeps

open Json

/-- Reads the number of a parent. -/
def Shape.parent? : Json → Option (Option Nat)
  | .null => some none
  | json => (count? json).map some

/-- Reads the field of a node. -/
def Shape.field? : Json → Option (Option String)
  | .null => some none
  | json => (string? json).map some

/-- Reads a node. -/
def Shape.rowOfJson? : Json → Option (TreeRow Shape)
  | .array [parent, kind, field, named, startByte, endByte, startRow, endRow] => do
    let parent ← Shape.parent? parent
    let kind ← string? kind
    let field ← Shape.field? field
    let named ← count? named
    let startByte ← count? startByte
    let endByte ← count? endByte
    let startRow ← count? startRow
    let endRow ← count? endRow
    return { parent
             datum :=
               { kind, field, isNamed := named != 0, startByte, endByte,
                 startLine := startRow + 1, endLine := endRow + 1 } }
  | _ => none

/-- Reads a syntax tree. -/
def SyntaxTree.ofJson? (json : Json) : Option SyntaxTree := do
  let rows ← list? Shape.rowOfJson? json
  TreeRow.tree? rows

end CppDeps
