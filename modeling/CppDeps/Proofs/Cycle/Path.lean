import CppDeps.Proofs.Cycle.Stacks
import Mathlib

/-!
# The path of a search

Before each move of a search without limits the path leads from the start along edges, through different
nodes in scope, and all of these are blocked.  A blocked node that is not on the path is a dead end: all
its successors in scope are blocked, and it waits for each of them.

A node that was freed through one of its successors still waits for the others, and it may be on the path
again when one of these is released.  Yet no release frees a node of the path, at no pass of the cascade:
the node that is released is the last one of the path, and no node of the path waits for a later one,
directly or through other blocked nodes (`Search.UnboundedInv.ordered`).

All this together is `Search.Orderly`, which holds before every move (`Search.orderly_iterate`).
-/

namespace CppDeps

variable {n : ℕ}

/-- The path has the nodes of the trail. -/
lemma Walk.mem_path_iff {w : Walk n} {v : Fin n} : v ∈ w.path ↔ v ∈ w.trail :=
  List.mem_reverse

namespace Search

variable {s : Search n} {w w' : Walk n}

/-! ## The edges of the path -/

/-- Frames follow the graph: an edge leads to each node from the one before it, the first node is the
start, and the untried edges of a node are the last ones among its edges. -/
structure Follows (s : Search n) (frames : List (Frame n)) : Prop where
  untried : ∀ frame ∈ frames, frame.untried <:+ s.graph.successors frame.node
  chain : (frames.map Frame.node).IsChain fun v u => s.graph.Edge u v
  getLast?_eq : frames ≠ [] → (frames.map Frame.node).getLast? = some s.start

/-- The path of the start alone follows the graph. -/
lemma follows_begin (s : Search n) (tally : Tally n) : s.Follows (s.begin tally).frames where
  untried := by
    intro frame hframe
    obtain rfl : frame = s.enter s.start := List.mem_singleton.1 hframe
    exact List.suffix_rfl
  chain := List.IsChain.singleton _
  getLast?_eq _ := rfl

/-- The path without its last node follows the graph. -/
lemma Follows.tail {frame : Frame n} {outer : List (Frame n)} (h : s.Follows (frame :: outer)) :
    s.Follows outer where
  untried f hf := h.untried f (List.mem_cons_of_mem _ hf)
  chain := h.chain.tail
  getLast?_eq hne := by
    obtain ⟨below, outer, rfl⟩ := List.exists_cons_of_ne_nil hne
    have hlast := h.getLast?_eq (List.cons_ne_nil _ _)
    rwa [List.map_cons, List.map_cons, List.getLast?_cons_cons, ← List.map_cons] at hlast

/-- At the end of the path edges may be tried and cycles be closed. -/
lemma Follows.retry {frame frame' : Frame n} {outer : List (Frame n)}
    (h : s.Follows (frame :: outer)) (hnode : frame'.node = frame.node)
    (huntried : frame'.untried <:+ frame.untried) : s.Follows (frame' :: outer) := by
  have hnodes : (frame' :: outer).map Frame.node = (frame :: outer).map Frame.node := by
    rw [List.map_cons, List.map_cons, hnode]
  refine ⟨List.forall_mem_cons.2 ⟨?_, h.tail.untried⟩, hnodes ▸ h.chain, fun _ => ?_⟩
  · rw [hnode]
    exact huntried.trans (h.untried frame List.mem_cons_self)
  · rw [hnodes]
    exact h.getLast?_eq (List.cons_ne_nil _ _)

/-- A path that enters a node by an untried edge follows the graph. -/
lemma Follows.enter {v u : Fin n} {untried : List (Fin n)} {closed : Bool} {outer : List (Frame n)}
    (h : s.Follows (⟨v, u :: untried, closed⟩ :: outer)) :
    s.Follows (s.enter u :: ⟨v, untried, closed⟩ :: outer) := by
  have htried : s.Follows (⟨v, untried, closed⟩ :: outer) := h.retry rfl (List.suffix_cons u untried)
  have hedge : s.graph.Edge v u := (h.untried _ List.mem_cons_self).subset List.mem_cons_self
  refine ⟨List.forall_mem_cons.2 ⟨List.suffix_rfl, htried.untried⟩, ?_, fun _ => ?_⟩
  · exact List.isChain_cons_cons.2 ⟨hedge, htried.chain⟩
  · exact htried.getLast?_eq (List.cons_ne_nil _ _)

/-- Every move keeps to the edges of the graph. -/
lemma Move.follows (hmove : s.Move w w') (h : s.Follows w.frames) : s.Follows w'.frames := by
  cases hmove with
  | @pass v u untried closed outer hframes _ | @close v u untried closed outer hframes _ _ =>
    rw [hframes] at h
    exact h.retry rfl (List.suffix_cons u untried)
  | enter hframes _ _ _ _ =>
    rw [hframes] at h
    exact h.enter
  | unblock hframes _ | wait hframes _ =>
    rw [hframes] at h
    exact h.tail
  | @release v outer hframes _ =>
    rw [hframes] at h
    show s.Follows (markClosed outer)
    cases outer with
    | nil => exact h.tail
    | cons frame outer => exact h.tail.retry rfl List.suffix_rfl

/-- Without a cap no move cuts the tally short. -/
lemma Move.truncated_eq (hmove : s.Move w w') (hcap : s.limits.maxCycles = none) :
    w'.tally.truncated = w.tally.truncated := by
  cases hmove with
  | close _ _ _ =>
    show (w.tally.record s.limits w.path).truncated = _
    rw [Tally.record, hcap]
    rfl
  | pass _ _ | enter _ _ _ _ _ | unblock _ _ | release _ _ | wait _ _ => rfl

/-! ## Before each move -/

/-- What holds before each move of a search without limits. -/
structure Orderly (s : Search n) (w : Walk n) : Prop where
  /-- The path begins at the start, as long as the search goes on. -/
  head?_path : w.frames ≠ [] → w.path.head? = some s.start
  /-- Edges lead along the path. -/
  chain_path : w.path.IsChain s.graph.Edge
  /-- The path repeats no node. -/
  nodup_path : w.path.Nodup
  /-- The path stays in scope. -/
  inScope_path : ∀ v ∈ w.path, s.inScope v = true
  /-- The nodes of the path are blocked. -/
  blocked_path : ∀ v ∈ w.path, w.blocking.isBlocked v = true
  /-- A blocked node off the path waits for each of its successors in scope, all of them blocked. -/
  sealed : ∀ v, w.blocking.isBlocked v = true → v ∉ w.path →
    ∀ u ∈ s.graph.successors v, s.inScope u = true →
      w.blocking.isBlocked u = true ∧ v ∈ w.blocking.waitersOf u
  /-- When the path leaves a node below which a cycle was closed, the node is released, and no pass of the
  cascade frees a node that stays on the path. -/
  release_keeps : ∀ v outer, w.frames = ⟨v, [], true⟩ :: outer →
    (s.step w).blocking = w.blocking.release v ∧
      ∀ k, ∀ x ∈ (s.step w).path,
        (Cascade.pass^[k] (Cascade.begin w.blocking v)).blocking.isBlocked x = true

/-- Leaving a node below which a cycle was closed releases it. -/
lemma step_of_closed (hbound : s.limits.maxCycleLength = none) (htruncated : w.tally.truncated = false)
    {v : Fin n} {outer : List (Frame n)} (hframes : w.frames = ⟨v, [], true⟩ :: outer) :
    s.step w = { w with frames := markClosed outer, blocking := w.blocking.release v } := by
  rw [step, htruncated, hframes, if_neg Bool.false_ne_true]
  simp [retreat, hbound]

/-- The invariants of a search make it orderly. -/
lemma UnboundedInv.orderly (h : s.UnboundedInv w) (hbound : s.limits.maxCycleLength = none)
    (hfollows : s.Follows w.frames) (hscope : ∀ v ∈ w.trail, s.inScope v = true)
    (htruncated : w.tally.truncated = false) : s.Orderly w where
  head?_path hframes := by
    rw [Walk.path, List.head?_reverse]
    exact hfollows.getLast?_eq hframes
  chain_path := List.isChain_reverse.2 hfollows.chain
  nodup_path := List.nodup_reverse.2 h.nodup
  inScope_path v hv := hscope v (Walk.mem_path_iff.1 hv)
  blocked_path v hv := h.blocked v (Walk.mem_path_iff.1 hv)
  sealed v hv hpath u hu hscope := by
    obtain ⟨hublocked, hwaits, -⟩ := h.sealed v hv (mt Walk.mem_path_iff.2 hpath) u hu hscope
    exact ⟨hublocked, hwaits⟩
  release_keeps v outer hframes := by
    have hstep := step_of_closed hbound htruncated hframes
    have hafter := (h.release hframes).blocked
    rw [hstep]
    refine ⟨rfl, fun k x hx => Cascade.isBlocked_iterate_pass ?_ k⟩
    exact hafter x (Walk.mem_path_iff.1 hx)

/-- **A search without limits is orderly before each of its moves**, whatever graph it runs on, from
whatever start in whatever scope. -/
theorem orderly_iterate (g : Digraph n) (inScope : Fin n → Bool) (start : Fin n)
    (hstart : inScope start = true) (found : Array (List (Fin n))) (m : ℕ) :
    let s : Search n := { graph := g, inScope := inScope, start := start, limits := .unbounded }
    s.Orderly (s.step^[m] (s.begin ⟨found, false⟩)) := by
  intro s
  have hinv := ((s.inv_begin ⟨found, false⟩).iterate m).unbounded rfl
  have hscope := s.inScope_iterate hstart ⟨found, false⟩ m
  have hfollows : s.Follows (s.step^[m] (s.begin ⟨found, false⟩)).frames :=
    iterate_of_forall_move (P := fun w => s.Follows w.frames)
      (fun _ _ h hmove => hmove.follows h) (s.follows_begin ⟨found, false⟩) m
  have htruncated : (s.step^[m] (s.begin ⟨found, false⟩)).tally.truncated = false :=
    iterate_of_forall_move (P := fun w => w.tally.truncated = false)
      (fun _ _ h hmove => (hmove.truncated_eq rfl).trans h) rfl m
  exact hinv.orderly rfl hfollows hscope htruncated

/-- A search in which a node is on the path again while it still waits for another one. -/
def staleWaiter : Search 4 where
  graph := .ofEdges [(0, 1), (1, 2), (1, 3), (2, 0), (2, 3), (3, 1), (3, 2)]
  inScope _ := true
  start := 0
  limits := .unbounded

/-- After seven moves the last node is off the path, blocked, and waits for its two successors.  After
thirteen moves it is on the path and still waits for one of them; the next move releases the other one,
which does not free it. -/
theorem orderly_iterate_staleWaiter :
    let after := fun m => staleWaiter.step^[m] (staleWaiter.begin .empty)
    staleWaiter.inScope staleWaiter.start = true ∧
      ((after 7).path = [0, 1, 2] ∧ 3 ∈ (after 7).blocking.waitersOf 1 ∧
        3 ∈ (after 7).blocking.waitersOf 2) ∧
      (after 13).path = [0, 1, 3, 2] ∧ (after 13).blocking.waitersOf 1 = [3] ∧
      ∀ k, (Cascade.pass^[k] (Cascade.begin (after 13).blocking 2)).blocking.isBlocked 3 = true := by
  have horderly : ∀ m, staleWaiter.Orderly (staleWaiter.step^[m] (staleWaiter.begin .empty)) :=
    orderly_iterate staleWaiter.graph staleWaiter.inScope staleWaiter.start rfl #[]
  have hpath : (staleWaiter.step^[7] (staleWaiter.begin .empty)).path = [0, 1, 2] := by cbv
  have hblocked :
      (staleWaiter.step^[7] (staleWaiter.begin .empty)).blocking.isBlocked 3 = true := by cbv
  have hwaits : ∀ u ∈ staleWaiter.graph.successors 3,
      3 ∈ (staleWaiter.step^[7] (staleWaiter.begin .empty)).blocking.waitersOf u := by
    intro u hu
    have hoff : 3 ∉ (staleWaiter.step^[7] (staleWaiter.begin .empty)).path := by
      rw [hpath]
      decide
    exact ((horderly 7).sealed 3 hblocked hoff u hu rfl).2
  have hlast : (staleWaiter.step^[13] (staleWaiter.begin .empty)).frames.head? =
      some ⟨2, [], true⟩ := by cbv
  have hnext : (staleWaiter.step (staleWaiter.step^[13] (staleWaiter.begin .empty))).path =
      [0, 1, 3] := by cbv
  obtain ⟨outer, hframes⟩ := List.head?_eq_some_iff.1 hlast
  obtain ⟨-, hkeeps⟩ := (horderly 13).release_keeps 2 outer hframes
  have hfirst : staleWaiter.graph.Edge 3 1 := Digraph.edge_ofEdges_iff.2 (by decide)
  have hsecond : staleWaiter.graph.Edge 3 2 := Digraph.edge_ofEdges_iff.2 (by decide)
  refine ⟨rfl, ⟨hpath, hwaits 1 hfirst, hwaits 2 hsecond⟩, by cbv, by cbv, fun k => ?_⟩
  apply hkeeps k 3
  rw [hnext]
  decide

end Search

end CppDeps
