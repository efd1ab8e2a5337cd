import CppDeps.Proofs.Cycle.Cascade
import CppDeps.Proofs.Cycle.Sweep
import Mathlib

/-!
# A search with three stacks

`Search` keeps the path, the edges still to be tried and the marks of closed cycles in one list of
frames.  The search may as well keep three stacks that grow and shrink together: one of nodes with the
position of the next edge, one of the nodes of the path, and one of marks.  A cycle that the cap turns
away makes such a search return at once, with the edge taken but no mark set (`Stacks.pass`).

Pass by pass this is the search with frames (`Stacks.Agrees.pass`), so that its loop ends as that one
does, with the same cycles, and the stacks have the length of the path throughout, which repeats no node
and stays in scope.  Together with the cascade that releases nodes and the sweep over components, no loop
of the enumeration of cycles goes on for ever (`Digraph.cycles_terminates`).
-/

namespace CppDeps

variable {n : ℕ}

/-- The state of a search with three stacks.  The top of each is the head of its list. -/
structure Stacks (n : ℕ) where
  /-- The nodes of the path, each with the position of its next edge. -/
  cursors : List (Fin n × ℕ)
  path : List (Fin n)
  /-- For each node of the path, whether a cycle was closed at it or after it. -/
  closed : List Bool
  blocking : Blocking n
  tally : Tally n
  /-- Has the search returned early? -/
  halted : Bool

namespace Stacks

/-- Is the loop over? -/
def isDone (st : Stacks n) : Bool :=
  st.cursors.isEmpty || st.halted

/-- The stacks before the first pass. -/
def begin (s : Search n) (tally : Tally n) : Stacks n where
  cursors := [(s.start, 0)]
  path := [s.start]
  closed := [false]
  blocking := Blocking.none.block s.start
  tally := tally
  halted := false

/-- Sets the mark on top. -/
def markTop : List Bool → List Bool
  | [] => []
  | _ :: marks => true :: marks

/-- Records the path as a cycle, or returns early if the cap is reached. -/
def close (s : Search n) (st : Stacks n) : Stacks n :=
  if s.limits.maxCycles.any fun cap => decide (cap ≤ st.tally.cycles.size) then
    { st with
      tally := st.tally.record s.limits st.path.reverse
      halted := true }
  else
    { st with
      tally := st.tally.record s.limits st.path.reverse
      closed := markTop st.closed }

/-- Tries the edge from `v`, the end of the path, to `u`. -/
def follow (s : Search n) (st : Stacks n) (v u : Fin n) : Stacks n :=
  if !s.inScope u || u == v then st
  else if u = s.start then st.close s
  else if !st.blocking.isBlocked u && s.roomFor st.path.length then
    { st with
      cursors := (u, 0) :: st.cursors
      path := u :: st.path
      closed := false :: st.closed
      blocking := st.blocking.block u }
  else st

/-- Takes `v` off the end of the path, once all its edges were tried. -/
def leave (s : Search n) (st : Stacks n) (v : Fin n) : Stacks n :=
  let below :=
    { st with
      cursors := st.cursors.tail
      path := st.path.tail
      closed := st.closed.tail }
  if s.limits.maxCycleLength.isSome then
    { below with blocking := st.blocking.unblock v }
  else if st.closed.head?.getD false then
    { below with
      closed := markTop st.closed.tail
      blocking := st.blocking.release v }
  else
    { below with
      blocking := ((s.graph.successors v).filter s.inScope).foldl (Blocking.wait v) st.blocking }

/-- One pass of the loop.  A loop that is over stays as it is. -/
def pass (s : Search n) (st : Stacks n) : Stacks n :=
  if st.halted then st
  else
    match st.cursors with
    | [] => st
    | (v, next) :: below =>
      match (s.graph.successors v)[next]? with
      | some u => { st with cursors := (v, next + 1) :: below }.follow s v u
      | none => st.leave s v

/-! ## Three stacks and one -/

/-- A node with the position of its next edge is a frame from which the edges before it were tried. -/
def IsCursorOf (s : Search n) (cursor : Fin n × ℕ) (frame : Frame n) : Prop :=
  cursor.1 = frame.node ∧ frame.untried = (s.graph.successors frame.node).drop cursor.2

/-- The three stacks say what the frames of a search do.  When a cycle was turned away, the marks no
longer matter, but there is still one for each node. -/
structure Agrees (s : Search n) (st : Stacks n) (w : Walk n) : Prop where
  cursors : List.Forall₂ (IsCursorOf s) st.cursors w.frames
  path_eq : st.path = w.trail
  length_closed : st.closed.length = w.frames.length
  closed_eq : st.halted = false → st.closed = w.frames.map Frame.closed
  blocking_eq : st.blocking = w.blocking
  cycles_eq : st.tally.cycles = w.tally.cycles
  halted_eq : st.halted = w.tally.truncated

variable {s : Search n} {st : Stacks n} {w : Walk n}

/-- At first they agree. -/
lemma agrees_begin (s : Search n) (tally : Tally n) :
    Agrees s (begin s tally) (s.begin { tally with truncated := false }) where
  cursors := List.Forall₂.cons ⟨rfl, rfl⟩ List.Forall₂.nil
  path_eq := rfl
  length_closed := rfl
  closed_eq _ := rfl
  blocking_eq := rfl
  cycles_eq := rfl
  halted_eq := rfl

/-- A loop is over when the search with frames is. -/
lemma Agrees.isDone_eq (h : Agrees s st w) : st.isDone = w.isDone := by
  have hempty : st.cursors.isEmpty = w.frames.isEmpty := by
    rw [Bool.eq_iff_iff, List.isEmpty_iff_length_eq_zero, List.isEmpty_iff_length_eq_zero,
      h.cursors.length_eq]
  rw [isDone, Walk.isDone, hempty, h.halted_eq]

/-- Marking the top of the marks marks the end of the path. -/
lemma map_closed_markClosed (frames : List (Frame n)) :
    (Search.markClosed frames).map Frame.closed = markTop (frames.map Frame.closed) := by
  cases frames <;> rfl

/-- Marks do not matter to the cursors. -/
lemma forall₂_isCursorOf_markClosed {cursors : List (Fin n × ℕ)} {frames : List (Frame n)}
    (h : List.Forall₂ (IsCursorOf s) cursors frames) :
    List.Forall₂ (IsCursorOf s) cursors (Search.markClosed frames) := by
  cases h with
  | nil => exact List.Forall₂.nil
  | cons hcursor hbelow => exact List.Forall₂.cons hcursor hbelow

/-- The frame at the end of the path is that of the cursor on top. -/
lemma Agrees.exists_cursors_eq_cons (h : Agrees s st w) {frame : Frame n} {outer : List (Frame n)}
    (hframes : w.frames = frame :: outer) :
    ∃ next below, st.cursors = (frame.node, next) :: below ∧
      frame.untried = (s.graph.successors frame.node).drop next ∧
      List.Forall₂ (IsCursorOf s) below outer := by
  have hcursors := h.cursors
  rw [hframes, List.forall₂_cons_right_iff] at hcursors
  obtain ⟨⟨v, next⟩, below, ⟨rfl, huntried⟩, hbelow, hcons⟩ := hcursors
  exact ⟨next, below, hcons, huntried, hbelow⟩

/-- Of a search that goes on, the marks are those of the frames, and the end of the path is on top. -/
lemma Agrees.closed_eq_cons (h : Agrees s st w) (hhalted : st.halted = false) {frame : Frame n}
    {outer : List (Frame n)} (hframes : w.frames = frame :: outer) :
    st.closed = frame.closed :: outer.map Frame.closed := by
  rw [h.closed_eq hhalted, hframes, List.map_cons]

/-- They still agree when the path is closed to a cycle. -/
lemma Agrees.close (h : Agrees s st w) (hhalted : st.halted = false) {frame : Frame n}
    {outer : List (Frame n)} (hframes : w.frames = frame :: outer) :
    Agrees s (st.close s)
      { w with
        frames := { frame with closed := true } :: outer
        tally := w.tally.record s.limits w.path } := by
  have hcursors : List.Forall₂ (IsCursorOf s) st.cursors ({ frame with closed := true } :: outer) := by
    obtain ⟨next, below, hcons, huntried, hbelow⟩ := h.exists_cursors_eq_cons hframes
    rw [hcons]
    exact List.Forall₂.cons ⟨rfl, huntried⟩ hbelow
  have hpath : st.path = Frame.node frame :: outer.map Frame.node := by
    rw [h.path_eq, Walk.trail_eq_cons hframes]
  have hlength : st.closed.length = outer.length + 1 := by
    rw [h.length_closed, hframes, List.length_cons]
  have hcap : (s.limits.maxCycles.any fun cap => decide (cap ≤ st.tally.cycles.size)) =
      s.limits.maxCycles.any fun cap => decide (cap ≤ w.tally.cycles.size) := by
    rw [h.cycles_eq]
  have hcycle : st.path.reverse = w.path := by
    rw [h.path_eq]
    rfl
  unfold Stacks.close Tally.record
  rw [hcap, hcycle]
  split
  · exact ⟨hcursors, hpath, hlength, fun hfalse => Bool.noConfusion hfalse, h.blocking_eq,
      h.cycles_eq, rfl⟩
  · have hmarks : markTop st.closed = true :: outer.map Frame.closed := by
      rw [h.closed_eq_cons hhalted hframes]
      rfl
    refine ⟨hcursors, hpath, ?_, fun _ => hmarks, h.blocking_eq, ?_, h.halted_eq⟩
    · show (markTop st.closed).length = _
      rw [hmarks, List.length_cons, List.length_map, List.length_cons]
    · show st.tally.cycles.push w.path = w.tally.cycles.push w.path
      rw [h.cycles_eq]

/-- They still agree when an edge was tried. -/
lemma Agrees.follow (h : Agrees s st w) (hhalted : st.halted = false) {frame : Frame n}
    {outer : List (Frame n)} (hframes : w.frames = frame :: outer) (u : Fin n) :
    Agrees s (st.follow s frame.node u) (s.advance w frame outer u) := by
  have hsame : ({ w with frames := frame :: outer } : Walk n) = w := by
    rw [← hframes]
  have hlength : st.path.length = (frame :: outer).length := by
    rw [h.path_eq, Walk.trail, hframes, List.length_map]
  unfold Stacks.follow Search.advance
  rw [hsame, h.blocking_eq, hlength, Search.hasRoom_eq_roomFor]
  split
  · exact h
  · split
    · exact h.close hhalted hframes
    · split
      · refine ⟨List.Forall₂.cons ⟨rfl, rfl⟩ (hframes ▸ h.cursors), ?_, ?_, fun _ => ?_, rfl,
          h.cycles_eq, h.halted_eq⟩
        · show u :: st.path = _
          rw [h.path_eq, Walk.trail, hframes]
          rfl
        · show (false :: st.closed).length = _
          rw [List.length_cons, h.length_closed, hframes]
          rfl
        · show false :: st.closed = _
          rw [h.closed_eq hhalted, hframes]
          rfl
      · exact h

/-- They still agree when the path has left its last node. -/
lemma Agrees.leave (h : Agrees s st w) (hhalted : st.halted = false) {frame : Frame n}
    {outer : List (Frame n)} (hframes : w.frames = frame :: outer) :
    Agrees s (st.leave s frame.node) (s.retreat w frame outer) := by
  have hcursors : List.Forall₂ (IsCursorOf s) st.cursors.tail outer := by
    obtain ⟨next, below, hcons, -, hbelow⟩ := h.exists_cursors_eq_cons hframes
    rw [hcons]
    exact hbelow
  have hpath : st.path.tail = outer.map Frame.node := by
    rw [h.path_eq, Walk.trail, hframes]
    rfl
  have hclosed := h.closed_eq_cons hhalted hframes
  have hmarks : st.closed.tail = outer.map Frame.closed := by
    rw [hclosed, List.tail_cons]
  have hfound : st.closed.head?.getD false = frame.closed := by
    rw [hclosed]
    rfl
  have hlength : st.closed.tail.length = outer.length := by
    rw [hmarks, List.length_map]
  unfold Stacks.leave Search.retreat
  simp only [hfound, h.blocking_eq]
  split
  · exact ⟨hcursors, hpath, hlength, fun _ => hmarks, rfl, h.cycles_eq, h.halted_eq⟩
  · split
    · have hcursors' := forall₂_isCursorOf_markClosed hcursors
      have hnodes := Search.map_node_markClosed outer
      have hmarks' : markTop st.closed.tail = (Search.markClosed outer).map Frame.closed := by
        rw [hmarks, map_closed_markClosed]
      refine ⟨hcursors', hpath.trans hnodes.symm, ?_, fun _ => hmarks', rfl, h.cycles_eq, h.halted_eq⟩
      show (markTop st.closed.tail).length = _
      rw [hmarks', List.length_map]
    · exact ⟨hcursors, hpath, hlength, fun _ => hmarks, rfl, h.cycles_eq, h.halted_eq⟩

/-- They still agree when an edge was taken off. -/
lemma Agrees.take (h : Agrees s st w) {frame : Frame n} {outer : List (Frame n)}
    (hframes : w.frames = frame :: outer) {next : ℕ} {below : List (Fin n × ℕ)}
    (hbelow : List.Forall₂ (IsCursorOf s) below outer) :
    Agrees s { st with cursors := (frame.node, next) :: below }
      { w with
        frames := { frame with untried := (s.graph.successors frame.node).drop next } :: outer } where
  cursors := List.Forall₂.cons ⟨rfl, rfl⟩ hbelow
  path_eq := by
    rw [h.path_eq, Walk.trail, hframes]
    rfl
  length_closed := by
    rw [h.length_closed, hframes]
    rfl
  closed_eq hhalted := by
    rw [h.closed_eq hhalted, hframes]
    rfl
  blocking_eq := h.blocking_eq
  cycles_eq := h.cycles_eq
  halted_eq := h.halted_eq

/-- Which edges of the path are untried does not matter to the edge that is tried. -/
lemma advance_take {frame : Frame n} {outer : List (Frame n)} (hframes : w.frames = frame :: outer)
    (untried : List (Fin n)) (u : Fin n) :
    s.advance { w with frames := { frame with untried := untried } :: outer }
        { frame with untried := untried } outer u =
      s.advance w { frame with untried := untried } outer u := by
  have hpath : Walk.path { w with frames := { frame with untried := untried } :: outer } = w.path := by
    rw [Walk.path, Walk.path, hframes]
    rfl
  unfold Search.advance
  rw [hpath]

/-- **Pass by pass** the three stacks do what the frames of the search do. -/
lemma Agrees.pass (h : Agrees s st w) : Agrees s (st.pass s) (s.step w) := by
  by_cases htruncated : w.tally.truncated = true
  · rw [Stacks.pass, Search.step, if_pos htruncated, if_pos (h.halted_eq.trans htruncated)]
    exact h
  have hhalted : st.halted = false := h.halted_eq.trans (Bool.eq_false_iff.2 htruncated)
  rw [Stacks.pass, Search.step, if_neg htruncated, if_neg (Bool.eq_false_iff.1 hhalted)]
  rcases hframes : w.frames with _ | ⟨frame, outer⟩
  · have hcursors := h.cursors
    rw [hframes, List.forall₂_nil_right_iff] at hcursors
    rw [hcursors]
    exact h
  · obtain ⟨next, below, hcursors, huntried, hbelow⟩ := h.exists_cursors_eq_cons hframes
    rw [hcursors]
    dsimp only
    cases hnext : (s.graph.successors frame.node)[next]? with
    | none =>
      have hnil : frame.untried = [] := by
        rw [huntried, List.drop_eq_nil_iff]
        exact List.getElem?_eq_none_iff.1 hnext
      rw [hnil]
      exact h.leave hhalted hframes
    | some u =>
      have hcons : frame.untried = u :: (s.graph.successors frame.node).drop (next + 1) := by
        obtain ⟨hlt, hu⟩ := List.getElem?_eq_some_iff.1 hnext
        rw [huntried, List.drop_eq_getElem_cons hlt, hu]
      rw [hcons]
      dsimp only
      rw [← advance_take hframes]
      exact (h.take hframes hbelow).follow hhalted rfl u

/-- They agree after however many passes. -/
lemma Agrees.iterate (h : Agrees s st w) (m : ℕ) :
    Agrees s ((Stacks.pass s)^[m] st) (s.step^[m] w) := by
  induction m generalizing st w with
  | zero => exact h
  | succ m ih =>
    rw [Function.iterate_succ_apply, Function.iterate_succ_apply]
    exact ih h.pass

end Stacks

/-! ## The nodes of the path -/

namespace Search

variable {s : Search n} {w w' : Walk n}

/-- A move that starts in scope stays there. -/
lemma Move.inScope (hmove : s.Move w w') (h : ∀ v ∈ w.trail, s.inScope v = true) :
    ∀ v ∈ w'.trail, s.inScope v = true := by
  cases hmove with
  | pass hframes _ | close hframes _ _ =>
    rw [Walk.trail_eq_cons hframes] at h
    exact h
  | @enter v u untried closed outer hframes hscope _ _ _ =>
    have hu : s.inScope u = true := by
      by_contra hout
      exact hscope (Or.inl (Bool.eq_false_iff.2 hout))
    rw [Walk.trail_eq_cons hframes] at h
    intro x hx
    rcases List.mem_cons.1 hx with rfl | hx
    · exact hu
    · exact h x hx
  | unblock hframes _ | wait hframes _ =>
    rw [Walk.trail_eq_cons hframes] at h
    exact fun x hx => h x (List.mem_cons_of_mem _ hx)
  | @release v outer hframes _ =>
    rw [Walk.trail_eq_cons hframes] at h
    rw [Walk.trail, map_node_markClosed]
    exact fun x hx => h x (List.mem_cons_of_mem _ hx)

/-- A path that starts in scope stays there. -/
lemma inScope_iterate (hstart : s.inScope s.start = true) (tally : Tally n) (m : ℕ) :
    ∀ v ∈ (s.step^[m] (s.begin tally)).trail, s.inScope v = true := by
  refine iterate_of_forall_move (P := fun w => ∀ v ∈ w.trail, s.inScope v = true)
    (fun w w' h hmove => hmove.inScope h) (fun v hv => ?_) m
  obtain rfl : v = s.start := List.mem_singleton.1 hv
  exact hstart

end Search

namespace Stacks

/-- What holds of the three stacks at each pass: they have one length, and the path repeats no node and
is no longer than there are nodes in scope. -/
structure InStep (s : Search n) (st : Stacks n) : Prop where
  length_cursors : st.cursors.length = st.path.length
  length_closed : st.closed.length = st.path.length
  nodup : st.path.Nodup
  length_path_le : st.path.length ≤ (List.finRange n).countP s.inScope

variable {s : Search n}

/-- Stacks that agree with a search keep in step. -/
lemma inStep_iterate (hstart : s.inScope s.start = true) (tally : Tally n) (m : ℕ) :
    InStep s ((pass s)^[m] (begin s tally)) := by
  have hagrees := (agrees_begin s tally).iterate m
  have hnodup := ((s.inv_begin { tally with truncated := false }).iterate m).nodup
  have hscope := s.inScope_iterate hstart { tally with truncated := false } m
  have hlength : ((pass s)^[m] (begin s tally)).path.length =
      (s.step^[m] (s.begin { tally with truncated := false })).frames.length := by
    rw [hagrees.path_eq, Walk.trail, List.length_map]
  refine ⟨hagrees.cursors.length_eq.trans hlength.symm, hagrees.length_closed.trans hlength.symm, ?_, ?_⟩
  · rw [hagrees.path_eq]
    exact hnodup
  · rw [hagrees.path_eq, List.countP_eq_length_filter]
    refine (hnodup.subperm fun v hv => ?_).length_le
    exact List.mem_filter.2 ⟨List.mem_finRange v, hscope v hv⟩

/-- The loop over the stacks ends, with the cycles that the search lists. -/
lemma exists_iterate_isDone (s : Search n) (tally : Tally n) :
    ∃ m, let st := (pass s)^[m] (begin s tally)
      st.isDone = true ∧
        (⟨st.tally.cycles, st.halted⟩ : Tally n) = s.cycles { tally with truncated := false } := by
  have hagrees := (agrees_begin s tally).iterate (2 ^ s.depth)
  have hdone := s.isDone_run { tally with truncated := false }
  rw [Search.run_eq_iterate] at hdone
  refine ⟨2 ^ s.depth, hagrees.isDone_eq.trans hdone, ?_⟩
  rw [hagrees.cycles_eq, hagrees.halted_eq, Search.cycles, Search.run_eq_iterate]

end Stacks

namespace Digraph

/-- **The enumeration of cycles comes to an end**, in each of its three loops.  The loop of a search with
three stacks, from any start in any scope and under any limits, is over after some passes and has listed
the cycles then; at each pass the stacks have one length, and the path repeats no node and is no longer
than there are nodes in scope.  The cascade that releases a node is over after some passes.  The sweep
over components is over after as many steps as there are nodes, and no component that is pending at any
step is empty. -/
theorem cycles_terminates (g : Digraph n) (limits : CycleLimits) :
    (∀ (inScope : Fin n → Bool) (start : Fin n) (tally : Tally n), inScope start = true →
      let s : Search n := { graph := g, inScope := inScope, start := start, limits := limits }
      let after := fun m => (Stacks.pass s)^[m] (Stacks.begin s tally)
      (∃ m, (after m).isDone = true ∧
        (⟨(after m).tally.cycles, (after m).halted⟩ : Tally n) =
          s.cycles { tally with truncated := false }) ∧
      ∀ m, Stacks.InStep s (after m)) ∧
    (∀ (b : Blocking n) (v : Fin n), ∃ m, Cascade.pass^[m] (Cascade.begin b v) = ⟨[], b.release v⟩) ∧
    ∀ tally : Tally n,
      let after := fun k => Sweep.run g limits k (Sweep.begin g tally)
      ((after n).pending = [] ∨ (after n).tally.truncated = true) ∧
      ∀ k, ∀ component ∈ (after k).pending, component ≠ [] := by
  refine ⟨fun inScope start tally hstart => ?_, Cascade.exists_iterate_pass, fun tally => ?_⟩
  · exact ⟨Stacks.exists_iterate_isDone _ tally, Stacks.inStep_iterate hstart tally⟩
  · have hinv : Sweep.Inv (Sweep.begin g tally).pending :=
      Sweep.inv_components g (List.pairwise_lt_finRange n)
    have hsteps : ((Sweep.begin g tally).pending.map List.length).sum ≤ n := by
      have hle := g.sum_length_components_le (List.finRange n)
      rwa [List.length_finRange] at hle
    refine ⟨Sweep.pending_run_eq_nil_or hinv limits hsteps, fun k component hcomponent => ?_⟩
    rintro rfl
    exact Nat.not_succ_le_zero 1 ((hinv.run limits k).two_le_length [] hcomponent)

/-- A graph with two cycles through its first node. -/
def twoCycles : Digraph 3 :=
  ofEdges [(0, 1), (1, 0), (1, 2), (2, 0)]

/-- From that node the loop over the stacks ends with both of them. -/
theorem cycles_terminates_twoCycles :
    let s : Search 3 :=
      { graph := twoCycles, inScope := fun _ => true, start := 0, limits := .unbounded }
    s.inScope s.start = true ∧
    ∃ m, let st := (Stacks.pass s)^[m] (Stacks.begin s .empty)
      st.isDone = true ∧ Stacks.InStep s st ∧ st.tally.cycles = #[[0, 1], [0, 1, 2]] := by
  intro s
  have hscope : s.inScope s.start = true := rfl
  obtain ⟨⟨m, hdone, htally⟩, hinStep⟩ :=
    (cycles_terminates twoCycles .unbounded).1 (fun _ => true) 0 .empty hscope
  have hcycles : (Search.cycles
      { graph := twoCycles, inScope := fun _ => true, start := 0, limits := .unbounded }
      ⟨#[], false⟩).cycles = #[[0, 1], [0, 1, 2]] := by
    cbv
  exact ⟨hscope, m, hdone, hinStep m, (congrArg Tally.cycles htally).trans hcycles⟩

end Digraph

end CppDeps
