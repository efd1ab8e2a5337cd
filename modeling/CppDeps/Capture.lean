import CppDeps.Query

/-!
# Captures

A match captures its outer node and then the node that carries the name.  The captures of all
matches of a category are merged in the order of the text: always the capture that starts first is
taken next, and of those that start together the shorter one.
-/

namespace CppDeps

/-- A captured node with its label. -/
structure Capture where
  label : String
  place : Place Node

/-- The captures of one file by category, each list in order. -/
structure CaptureSet where
  captures : Category → List Capture

namespace CaptureSet

/-- The captures of a list, grouped by category. -/
def ofList (captures : List (Category × Capture)) : CaptureSet where
  captures := fun category =>
    captures.filterMap fun (other, capture) => if other = category then some capture else none

/-- The nodes that carry the names of a category. -/
def named (set : CaptureSet) (category : Category) : List (Place Node) :=
  ((set.captures category).filter fun capture => capture.label == category.nameLabel).map
    Capture.place

end CaptureSet

/-! ## Merging the captures of matches -/

/-- A match some of whose captures are still to come: both, or only the second. -/
structure PendingMatch where
  found : Match
  outerTaken : Bool

namespace PendingMatch

/-- The node captured next. -/
def head (pending : PendingMatch) : Place Node :=
  if pending.outerTaken then pending.found.name else pending.found.outer

/-- The capture that comes next. -/
def capture (category : Category) (pending : PendingMatch) : Capture where
  label := if pending.outerTaken then category.nameLabel else category.outerLabel
  place := pending.head

/-- The match after its next capture was taken; none if nothing is left to come. -/
def advance (pending : PendingMatch) : Option PendingMatch :=
  if pending.outerTaken then none else some { pending with outerTaken := true }

/-- Does the next capture of one match come before that of another?  First the start counts, then
the end, then the number of the pattern. -/
def precedes (p q : PendingMatch) : Bool :=
  let a := p.head.datum
  let b := q.head.datum
  if a.startByte ≠ b.startByte then a.startByte < b.startByte
  else if a.endByte ≠ b.endByte then a.endByte < b.endByte
  else p.found.pattern < q.found.pattern

/-- The match whose next capture comes first, of equals the earlier one in the list, and the list
after that capture was taken. -/
def takeFirst : List PendingMatch → Option (PendingMatch × List PendingMatch)
  | [] => none
  | p :: rest =>
    match takeFirst rest with
    | none => some (p, p.advance.toList)
    | some (q, rest') =>
      if q.precedes p then some (q, p :: rest') else some (p, p.advance.toList ++ rest)

/-- Takes up to `count` captures, one after another. -/
def merge (category : Category) : Nat → List PendingMatch → List Capture
  | 0, _ => []
  | count + 1, pending =>
    match takeFirst pending with
    | none => []
    | some (p, rest) => p.capture category :: merge category count rest

end PendingMatch

namespace Query

/-- The captures of a category in a tree.  Every match has two. -/
def captures (category : Category) (tree : Tree Node) : List Capture :=
  let pending := (allMatches category tree).map fun found => ⟨found, false⟩
  PendingMatch.merge category (2 * pending.length) pending

/-- The captures of all categories in a tree. -/
def captureSet (tree : Tree Node) : CaptureSet where
  captures := fun category => captures category tree

end Query

end CppDeps
