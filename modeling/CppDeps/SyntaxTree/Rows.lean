import CppDeps.SyntaxTree.Basic

/-!
# Trees from rows

A tree can be written as a list of rows in which each row names the row of its parent.  A parent
comes before its children; a row whose parent does not come before it is a root.
-/

namespace CppDeps

universe u

/-- A node, with the number of the row of its parent. -/
structure TreeRow (α : Type u) where
  parent : Option Nat
  datum : α

namespace TreeRow

variable {α : Type u}

/-- The trees collected from the last row back to some row: the finished trees from that row on,
and the children found so far for each row. -/
structure Harvest (α : Type u) where
  trees : List (Tree α)
  childrenOf : Array (List (Tree α))

/-- Finishes the tree of a row, all of whose children are known, and gives it to its parent. -/
def collect (row : TreeRow α × Nat) (harvest : Harvest α) : Harvest α :=
  let tree := Tree.node row.1.datum (harvest.childrenOf.getD row.2 [])
  { trees := tree :: harvest.trees
    childrenOf :=
      match row.1.parent with
      | some p => if p < row.2 then harvest.childrenOf.modify p (tree :: ·) else harvest.childrenOf
      | none => harvest.childrenOf }

/-- The tree below each row. -/
def trees (rows : List (TreeRow α)) : List (Tree α) :=
  (rows.zipIdx.foldr collect ⟨[], Array.replicate rows.length []⟩).trees

/-- The tree of the first row. -/
def tree? (rows : List (TreeRow α)) : Option (Tree α) :=
  (trees rows).head?

/-- Adds the place of a row to those of the rows before it. -/
def addPlace (places : Array (Place α)) (row : TreeRow α × Tree α) : Array (Place α) :=
  let ancestors :=
    match row.1.parent.bind fun p => places[p]? with
    | some above => above.tree :: above.ancestors
    | none => []
  places.push ⟨row.2, ancestors⟩

/-- The place of each row. -/
def places (rows : List (TreeRow α)) : Array (Place α) :=
  (rows.zip (trees rows)).foldl addPlace #[]

end TreeRow

end CppDeps
