import CppDeps.Digraph

/-!
# Blocked nodes

A search for cycles blocks a node while it is on the path, and keeps it blocked afterwards if no
cycle was closed below it: the path could then only fail there again.  Such a node waits for its
successors, and is released as soon as one of them is.
-/

namespace CppDeps

/-- Which nodes the path may enter, and which nodes wait for a node to be released. -/
structure Blocking (n : Nat) where
  /-- The nodes that are not blocked. -/
  free : NodeSet n
  /-- For each node those that are released with it. -/
  waiting : Vector (List (Fin n)) n

namespace Blocking

variable {n : Nat}

/-- No node is blocked. -/
def none : Blocking n where
  free := .full
  waiting := Vector.replicate n []

/-- May the path not enter `v`? -/
def isBlocked (b : Blocking n) (v : Fin n) : Bool :=
  !b.free.contains v

/-- The nodes that are released with `v`. -/
def waitersOf (b : Blocking n) (v : Fin n) : List (Fin n) :=
  b.waiting.get v

/-- Blocks `v`. -/
def block (b : Blocking n) (v : Fin n) : Blocking n :=
  { b with free := b.free.erase v }

/-- Frees `v` and no other node. -/
def unblock (b : Blocking n) (v : Fin n) : Blocking n :=
  { b with free := b.free.insert v }

/-- Lets `v` wait for `w`. -/
def wait (v : Fin n) (b : Blocking n) (w : Fin n) : Blocking n :=
  if (b.waitersOf w).contains v then b
  else { b with waiting := b.waiting.set w (v :: b.waitersOf w) w.isLt }

/-- Frees `v` and with it all that wait for it, directly or through other blocked nodes.  No node
waits for a node that was freed. -/
def release (b : Blocking n) (v : Fin n) : Blocking n :=
  let free := spread b.waitersOf [v] b.free
  { free := free
    waiting := Vector.ofFn fun w =>
      if b.isBlocked w && free.contains w then [] else b.waitersOf w }

end Blocking

end CppDeps
