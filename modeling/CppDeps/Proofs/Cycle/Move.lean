import CppDeps.Proofs.Cycle.Blocking
import CppDeps.Proofs.Cycle.Enumeration

/-!
# The moves of a search

`Search.Move` lists the six things that one step of a search can do, each with the conditions under
which it does it, and `move_step` shows that a step of a search that is not over is one of them.  All
that a step keeps is then shown move by move.
-/

namespace CppDeps

variable {n : ℕ}

/-- The nodes of the path, the last one first. -/
def Walk.trail (w : Walk n) : List (Fin n) :=
  w.frames.map Frame.node

/-- The last node of the path stands in front of those before it. -/
lemma Walk.trail_eq_cons {w : Walk n} {frame : Frame n} {outer : List (Frame n)}
    (hframes : w.frames = frame :: outer) : w.trail = frame.node :: outer.map Frame.node := by
  rw [trail, hframes, List.map_cons]

namespace Search

/-- Marking the end of the path leaves its nodes. -/
lemma map_node_markClosed (frames : List (Frame n)) :
    (markClosed frames).map Frame.node = frames.map Frame.node := by
  cases frames <;> rfl

/-! ## The six moves -/

/-- One move of a search from the state `w`. -/
inductive Move (s : Search n) (w : Walk n) : Walk n → Prop
  /-- The next edge leads out of scope, back to its own node, or to a node that the path may not
  enter. -/
  | pass {v u : Fin n} {untried : List (Fin n)} {closed : Bool} {outer : List (Frame n)}
      (hframes : w.frames = ⟨v, u :: untried, closed⟩ :: outer)
      (hpass : (s.inScope u = false ∨ u = v) ∨
        (u ≠ s.start ∧ (w.blocking.isBlocked u = true ∨ s.roomFor w.trail.length = false))) :
      Move s w { w with frames := ⟨v, untried, closed⟩ :: outer }
  /-- The next edge leads to the start and closes a cycle. -/
  | close {v u : Fin n} {untried : List (Fin n)} {closed : Bool} {outer : List (Frame n)}
      (hframes : w.frames = ⟨v, u :: untried, closed⟩ :: outer)
      (hscope : ¬ (s.inScope u = false ∨ u = v)) (hstart : u = s.start) :
      Move s w
        { w with
          frames := ⟨v, untried, true⟩ :: outer
          tally := w.tally.record s.limits w.path }
  /-- The next edge leads to a free node, and the path enters it. -/
  | enter {v u : Fin n} {untried : List (Fin n)} {closed : Bool} {outer : List (Frame n)}
      (hframes : w.frames = ⟨v, u :: untried, closed⟩ :: outer)
      (hscope : ¬ (s.inScope u = false ∨ u = v)) (hstart : u ≠ s.start)
      (hfree : ¬ w.blocking.isBlocked u = true) (hroom : s.roomFor w.trail.length = true) :
      Move s w
        { w with
          frames := s.enter u :: ⟨v, untried, closed⟩ :: outer
          blocking := w.blocking.block u }
  /-- With a bound, the path leaves its last node and frees it. -/
  | unblock {v : Fin n} {closed : Bool} {outer : List (Frame n)}
      (hframes : w.frames = ⟨v, [], closed⟩ :: outer)
      (hbound : s.limits.maxCycleLength ≠ none) :
      Move s w
        { w with
          frames := outer
          blocking := w.blocking.unblock v }
  /-- Without a bound, the path leaves its last node, below which a cycle was closed, and releases
  it. -/
  | release {v : Fin n} {outer : List (Frame n)}
      (hframes : w.frames = ⟨v, [], true⟩ :: outer)
      (hbound : s.limits.maxCycleLength = none) :
      Move s w
        { w with
          frames := markClosed outer
          blocking := w.blocking.release v }
  /-- Without a bound, the path leaves its last node, below which no cycle was closed, and lets it
  wait for its successors. -/
  | wait {v : Fin n} {outer : List (Frame n)}
      (hframes : w.frames = ⟨v, [], false⟩ :: outer)
      (hbound : s.limits.maxCycleLength = none) :
      Move s w
        { w with
          frames := outer
          blocking :=
            ((s.graph.successors v).filter s.inScope).foldl (Blocking.wait v) w.blocking }

variable {s : Search n} {w w' : Walk n}

/-- Room on a path depends on the number of its nodes alone. -/
lemma hasRoom_eq_roomFor (frames : List (Frame n)) : s.hasRoom frames = s.roomFor frames.length :=
  rfl

/-- Trying an edge is a move. -/
lemma move_advance {v u : Fin n} {untried : List (Fin n)} {closed : Bool} {outer : List (Frame n)}
    (hframes : w.frames = ⟨v, u :: untried, closed⟩ :: outer) :
    s.Move w (s.advance w ⟨v, untried, closed⟩ outer u) := by
  have hlength : (⟨v, untried, closed⟩ :: outer).length = w.trail.length := by
    rw [Walk.trail_eq_cons hframes, List.length_cons, List.length_cons, List.length_map]
  simp only [advance, hasRoom_eq_roomFor, hlength]
  split
  · rename_i h
    refine Move.pass hframes (Or.inl ?_)
    simpa using h
  · rename_i h
    have hscope : ¬ (s.inScope u = false ∨ u = v) := by simpa using h
    split
    · rename_i hstart
      exact Move.close hframes hscope hstart
    · rename_i hstart
      split
      · rename_i hnew
        rw [Bool.and_eq_true, Bool.not_eq_true', ← Bool.not_eq_true] at hnew
        exact Move.enter hframes hscope hstart hnew.1 hnew.2
      · rename_i hold
        refine Move.pass hframes (Or.inr ⟨hstart, ?_⟩)
        rw [Bool.and_eq_true, Bool.not_eq_true', not_and_or] at hold
        exact hold.imp (fun h => by simpa using h) fun h => by simpa using h

/-- Leaving a node is a move. -/
lemma move_retreat {v : Fin n} {closed : Bool} {outer : List (Frame n)}
    (hframes : w.frames = ⟨v, [], closed⟩ :: outer) :
    s.Move w (s.retreat w ⟨v, [], closed⟩ outer) := by
  rw [retreat]
  split
  · rename_i hbound
    exact Move.unblock hframes (Option.isSome_iff_ne_none.1 hbound)
  · rename_i hbound
    have hnone : s.limits.maxCycleLength = none := Option.not_isSome_iff_eq_none.1 hbound
    cases closed with
    | true => exact Move.release hframes hnone
    | false => exact Move.wait hframes hnone

/-- **What a step can do.**  A step of a search that is not over is one of the six moves. -/
theorem move_step (h : ¬ w.isDone = true) : s.Move w (s.step w) := by
  have htruncated : ¬ w.tally.truncated = true := fun ht => h (by simp [Walk.isDone, ht])
  rw [step, if_neg htruncated]
  rcases hframes : w.frames with _ | ⟨⟨v, untried, closed⟩, outer⟩
  · exact absurd (by simp [Walk.isDone, hframes]) h
  · cases untried with
    | nil => exact move_retreat hframes
    | cons u untried => exact move_advance hframes

end Search

end CppDeps
