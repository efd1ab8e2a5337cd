import CppDeps.NodeSet

/-!
# Directed graphs on numbered nodes

A graph with `n` nodes gives each node the list of its successors.  From the set of all nodes that
some nodes lead to (`spread`) come the strongly connected components (`Digraph.classes`): two nodes
share one when each leads to the other.  Those that can hold a cycle of two or more nodes are put in
order (`Digraph.components`).
-/

namespace CppDeps

variable {n : Nat}

/-! ## Spreading -/

/-- Adds to a set the nodes of `work` and all that they lead to along `next`, but passes through no
node that is in the set already. -/
def spread (next : Fin n → List (Fin n)) (work : List (Fin n)) (reached : NodeSet n) :
    NodeSet n :=
  match work with
  | [] => reached
  | v :: work =>
    if reached.contains v then spread next work reached
    else spread next (next v ++ work) (reached.insert v)
  termination_by (reached.missing, work.length)
  decreasing_by
    · exact Prod.Lex.right _ (Nat.lt_succ_self _)
    · exact Prod.Lex.left _ _ (NodeSet.missing_insert_lt ‹_›)

/-! ## Graphs -/

/-- A directed graph on the nodes `0, …, n - 1`. -/
structure Digraph (n : Nat) where
  /-- The successors of each node. -/
  next : Vector (List (Fin n)) n

namespace Digraph

/-- Nodes in ascending order. -/
def sortNodes (nodes : List (Fin n)) : List (Fin n) :=
  nodes.mergeSort fun v w => decide (v ≤ w)

/-- The node that an edge from `v` leads to; none if the edge starts elsewhere. -/
def target? (v : Fin n) (edge : Nat × Nat) : Option (Fin n) :=
  if edge.1 = v.val then
    if h : edge.2 < n then some ⟨edge.2, h⟩ else none
  else none

/-- The graph of a list of edges.  Each node has its successors in ascending order. -/
def ofEdges (edges : List (Nat × Nat)) : Digraph n where
  next := Vector.ofFn fun v => sortNodes (edges.filterMap (target? v))

/-- The nodes that an edge from `v` leads to. -/
def successors (g : Digraph n) (v : Fin n) : List (Fin n) :=
  g.next.get v

/-- The number of edges. -/
def edgeCount (g : Digraph n) : Nat :=
  g.next.foldl (fun total targets => total + targets.length) 0

/-- The graph with all edges turned round. -/
def reverse (g : Digraph n) : Digraph n where
  next := (List.finRange n).foldl
    (fun next v =>
      (g.successors v).foldl (fun next (w : Fin n) => next.set w (v :: next.get w) w.isLt) next)
    (Vector.replicate n [])

/-- The graph with only the edges between two nodes of a set. -/
def induced (g : Digraph n) (nodes : NodeSet n) : Digraph n where
  next := Vector.ofFn fun v =>
    if nodes.contains v then (g.successors v).filter nodes.contains else []

/-- The set of `v` and all nodes that it leads to. -/
def reachable (g : Digraph n) (v : Fin n) : NodeSet n :=
  spread g.successors [v] .empty

/-! ## Components -/

/-- Splits nodes into those that `v` leads to and is reached from, given the graph and its reverse,
and the others. -/
def splitClass (g back : Digraph n) (v : Fin n) (nodes : List (Fin n)) :
    List (Fin n) × List (Fin n) :=
  let ahead := g.reachable v
  let behind := back.reachable v
  nodes.partition fun w => ahead.contains w && behind.contains w

theorem length_splitClass_snd_le (g back : Digraph n) (v : Fin n) (nodes : List (Fin n)) :
    (splitClass g back v nodes).2.length ≤ nodes.length := by
  simp only [splitClass, List.partition_eq_filter_filter]
  exact List.length_filter_le _ _

/-- The strongly connected components among `nodes`, given the graph and its reverse.  Each starts
with its first node, which collects the later nodes that share its component. -/
def classes (g back : Digraph n) : List (Fin n) → List (List (Fin n))
  | [] => []
  | v :: nodes =>
    let split := splitClass g back v nodes
    (v :: split.1) :: classes g back split.2
  termination_by nodes => nodes.length
  decreasing_by exact Nat.lt_succ_of_le (length_splitClass_snd_le g back v nodes)

/-- Does one component start with a node that does not come after the first node of another? -/
def startsBefore : List (Fin n) → List (Fin n) → Bool
  | v :: _, w :: _ => decide (v ≤ w)
  | _, _ => true

/-- The strongly connected components of two or more nodes in the part of the graph that lies in
`nodes`.  Each component is ascending, and the components are in the order of their least nodes. -/
def components (g : Digraph n) (nodes : List (Fin n)) : List (List (Fin n)) :=
  let part := g.induced (.ofList nodes)
  let found := (classes part part.reverse nodes).filter fun component => 1 < component.length
  (found.map sortNodes).mergeSort startsBefore

end Digraph

end CppDeps
