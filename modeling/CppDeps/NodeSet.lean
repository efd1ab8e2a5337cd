/-!
# Sets of nodes

A set of the nodes `0, …, n - 1` is kept as one mark for each node, so asking for a node, adding it
and taking it out do not depend on the size of the set.
-/

namespace CppDeps

/-- A set of the nodes `0, …, n - 1`. -/
structure NodeSet (n : Nat) where
  /-- Is the node in the set? -/
  marks : Vector Bool n

namespace NodeSet

variable {n : Nat}

/-- The set without nodes. -/
def empty : NodeSet n where
  marks := Vector.replicate n false

/-- The set of all nodes. -/
def full : NodeSet n where
  marks := Vector.replicate n true

/-- Is `v` in the set? -/
def contains (s : NodeSet n) (v : Fin n) : Bool :=
  s.marks.get v

/-- The set with `v`. -/
def insert (s : NodeSet n) (v : Fin n) : NodeSet n where
  marks := s.marks.set v true v.isLt

/-- The set without `v`. -/
def erase (s : NodeSet n) (v : Fin n) : NodeSet n where
  marks := s.marks.set v false v.isLt

/-- The set of the nodes of a list. -/
def ofList (nodes : List (Fin n)) : NodeSet n :=
  nodes.foldl insert empty

/-- The number of nodes that are not in the set. -/
def missing (s : NodeSet n) : Nat :=
  s.marks.count false

theorem contains_eq_getElem (s : NodeSet n) (v : Fin n) : s.contains v = s.marks[v.val] :=
  rfl

@[simp] theorem contains_empty (v : Fin n) : (empty : NodeSet n).contains v = false := by
  simp [contains_eq_getElem, empty]

@[simp] theorem contains_full (v : Fin n) : (full : NodeSet n).contains v = true := by
  simp [contains_eq_getElem, full]

theorem contains_insert (s : NodeSet n) (v w : Fin n) :
    (s.insert v).contains w = (decide (v = w) || s.contains w) := by
  by_cases h : v = w
  · simp [contains_eq_getElem, insert, h]
  · have h' : v.val ≠ w.val := fun e => h (Fin.ext e)
    simp [contains_eq_getElem, insert, h, h']

theorem contains_erase (s : NodeSet n) (v w : Fin n) :
    (s.erase v).contains w = (!decide (v = w) && s.contains w) := by
  by_cases h : v = w
  · simp [contains_eq_getElem, erase, h]
  · have h' : v.val ≠ w.val := fun e => h (Fin.ext e)
    simp [contains_eq_getElem, erase, h, h']

/-- Adding a new node leaves fewer nodes missing. -/
theorem missing_insert_lt {s : NodeSet n} {v : Fin n} (h : ¬ s.contains v = true) :
    (s.insert v).missing < s.missing := by
  have hv : s.marks[v.val] = false := by
    simpa [contains_eq_getElem] using h
  have hpos : 0 < s.marks.count false :=
    Vector.count_pos_iff.2 (hv ▸ Vector.getElem_mem v.isLt)
  have hset : (s.marks.set v true v.isLt).count false = _ := Vector.count_set v.isLt
  rw [hv, beq_self_eq_true, if_pos rfl, Bool.true_beq, if_neg Bool.false_ne_true] at hset
  show (s.marks.set v true v.isLt).count false < s.marks.count false
  omega

end NodeSet

end CppDeps
