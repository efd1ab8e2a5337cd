import CppDeps.Cycle.Blocking
import CppDeps.Cycle.Limits

/-!
# The cycles through one node

A depth-first search lists the simple cycles that pass through a start node and stay inside a set
of nodes.  Its state is the path with the successors still to be tried at each node of it, the
blocked nodes and the cycles recorded so far; `Search.step` makes one move.

Without a limit on the length of a cycle, a node that the path leaves stays blocked if no cycle was
closed below it.  With a limit a failure may be due to the limit alone, so every node is freed when
the path leaves it.
-/

namespace CppDeps

variable {n : Nat}

/-- What to search: the cycles of `graph` through `start` on nodes in scope. -/
structure Search (n : Nat) where
  graph : Digraph n
  inScope : Fin n → Bool
  start : Fin n
  limits : CycleLimits

/-- A node of the path. -/
structure Frame (n : Nat) where
  node : Fin n
  /-- The successors that were not tried yet. -/
  untried : List (Fin n)
  /-- Was a cycle closed at this node or at one that followed it? -/
  closed : Bool

/-- The state of a search. -/
structure Walk (n : Nat) where
  /-- The path, its last node first. -/
  frames : List (Frame n)
  blocking : Blocking n
  tally : Tally n

namespace Walk

/-- The nodes of the path from the start on. -/
def path (w : Walk n) : List (Fin n) :=
  (w.frames.map Frame.node).reverse

/-- Is the search over, because the path is empty or because the cap on cycles was hit? -/
def isDone (w : Walk n) : Bool :=
  w.frames.isEmpty || w.tally.truncated

end Walk

namespace Search

/-! ## One move -/

/-- A node that the path enters, with all its successors still to be tried. -/
def enter (s : Search n) (v : Fin n) : Frame n where
  node := v
  untried := s.graph.successors v
  closed := false

/-- Has the path room for one more node? -/
def hasRoom (s : Search n) (frames : List (Frame n)) : Bool :=
  s.limits.maxCycleLength.all fun bound => decide (frames.length < bound)

/-- Tries the edge from the end of the path, which is `frame` with that edge taken off, to `u`:
passes over it, closes a cycle, or makes the path longer. -/
def advance (s : Search n) (w : Walk n) (frame : Frame n) (outer : List (Frame n)) (u : Fin n) :
    Walk n :=
  if !s.inScope u || u == frame.node then
    { w with frames := frame :: outer }
  else if u = s.start then
    { w with
      frames := { frame with closed := true } :: outer
      tally := w.tally.record s.limits w.path }
  else if !w.blocking.isBlocked u && s.hasRoom (frame :: outer) then
    { w with
      frames := s.enter u :: frame :: outer
      blocking := w.blocking.block u }
  else
    { w with frames := frame :: outer }

/-- Notes at the end of a path that a cycle was closed below it. -/
def markClosed : List (Frame n) → List (Frame n)
  | [] => []
  | frame :: outer => { frame with closed := true } :: outer

/-- Takes `frame` off the end of the path, once all its successors were tried. -/
def retreat (s : Search n) (w : Walk n) (frame : Frame n) (outer : List (Frame n)) : Walk n :=
  if s.limits.maxCycleLength.isSome then
    { w with
      frames := outer
      blocking := w.blocking.unblock frame.node }
  else if frame.closed then
    { w with
      frames := markClosed outer
      blocking := w.blocking.release frame.node }
  else
    { w with
      frames := outer
      blocking :=
        ((s.graph.successors frame.node).filter s.inScope).foldl
          (Blocking.wait frame.node) w.blocking }

/-- One move of the search.  A search that is over stays as it is. -/
def step (s : Search n) (w : Walk n) : Walk n :=
  if w.tally.truncated then w
  else
    match w.frames with
    | [] => w
    | frame :: outer =>
      match frame.untried with
      | u :: untried => s.advance w { frame with untried := untried } outer u
      | [] => s.retreat w frame outer

/-- A search that is over does not move. -/
theorem step_of_isDone (s : Search n) {w : Walk n} (h : w.isDone = true) : s.step w = w := by
  unfold step
  split
  · rfl
  · rename_i ht
    have hf : w.frames = [] := by simpa [Walk.isDone, ht] using h
    simp [hf]

/-! ## All moves -/

/-- The search before its first move: the path is the start node. -/
def begin (s : Search n) (tally : Tally n) : Walk n where
  frames := [s.enter s.start]
  blocking := Blocking.none.block s.start
  tally := tally

/-- Makes `2 ^ k` moves, or fewer if the search is over before. -/
def run (s : Search n) : Nat → Walk n → Walk n
  | 0, w => s.step w
  | k + 1, w =>
    let halfway := s.run k w
    if halfway.isDone then halfway else s.run k halfway

/-- A number `k` for which every search is over within `2 ^ k` moves: a path has at most `n` nodes,
and at each there are no more moves than edges, one to leave and one to spare. -/
def depth (s : Search n) : Nat :=
  (n + 1) * (Nat.log2 (s.graph.edgeCount + 2) + 1)

/-- Adds the cycles that the search finds to the tally. -/
def cycles (s : Search n) (tally : Tally n) : Tally n :=
  (s.run s.depth (s.begin tally)).tally

end Search

end CppDeps
