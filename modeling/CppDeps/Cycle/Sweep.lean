import CppDeps.Cycle.Search

/-!
# All cycles of a graph

The cycles of one node come first.  A longer cycle lies inside a strongly connected component, so a
sweep takes the pending components one after another: it lists the cycles through the least node of
a component, takes that node out, and puts the components of what is left in front of the others.
-/

namespace CppDeps

variable {n : Nat}

/-- The state of a sweep: the components still to be searched, the next one first, and the cycles
recorded so far. -/
structure Sweep (n : Nat) where
  pending : List (List (Fin n))
  tally : Tally n

namespace Sweep

/-- The search for the cycles through `start` inside a component. -/
def searchIn (g : Digraph n) (limits : CycleLimits) (component : List (Fin n)) (start : Fin n) :
    Search n :=
  let scope := NodeSet.ofList component
  { graph := g
    inScope := scope.contains
    start := start
    limits := limits }

/-- Searches the next component through its least node.  A sweep that was cut short stays as it
is. -/
def step (g : Digraph n) (limits : CycleLimits) (sweep : Sweep n) : Sweep n :=
  if sweep.tally.truncated then sweep
  else
    match sweep.pending with
    | [] => sweep
    | [] :: others => { sweep with pending := others }
    | (start :: rest) :: others =>
      { pending := g.components rest ++ others
        tally := (searchIn g limits (start :: rest) start).cycles sweep.tally }

/-- Makes `k` steps. -/
def run (g : Digraph n) (limits : CycleLimits) : Nat → Sweep n → Sweep n
  | 0, sweep => sweep
  | k + 1, sweep => run g limits k (step g limits sweep)

/-- The sweep before its first step: all components of the graph are pending. -/
def begin (g : Digraph n) (tally : Tally n) : Sweep n where
  pending := g.components (List.finRange n)
  tally := tally

end Sweep

namespace Digraph

/-- Records a node with an edge to itself as a cycle, unless the tally was cut short. -/
def recordLoop (g : Digraph n) (limits : CycleLimits) (tally : Tally n) (v : Fin n) : Tally n :=
  if !tally.truncated && (g.successors v).contains v then tally.record limits [v] else tally

/-- The cycles of one node, in the order of the nodes. -/
def loops (g : Digraph n) (limits : CycleLimits) : Tally n :=
  (List.finRange n).foldl (g.recordLoop limits) .empty

/-- The simple cycles of the graph, as far as the limits admit them.  Every step of the sweep takes
one node out for good, so `n` steps leave nothing pending. -/
def cycles (g : Digraph n) (limits : CycleLimits) : Tally n :=
  if limits.maxCycleLength = some 0 then .empty
  else if limits.maxCycleLength = some 1 then g.loops limits
  else (Sweep.run g limits n (Sweep.begin g (g.loops limits))).tally

end Digraph

end CppDeps
