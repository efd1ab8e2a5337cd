import CppDeps.Proofs.Cycle.Invariant

/-!
# A search comes to an end

Nodes are blocked and freed again many times, so no count of nodes goes down with every move.  What
goes down is the number of moves that are left at most: an untried edge at the `d`-th node of the
path is worth as many moves as any search below the path can take, which is a power of the number of
edges with exponent `n - d`, since a path without repeated nodes has at most `n` of them.

The budget of `Search.run`, which doubles itself, exceeds this weight, so every search is over when
`run` returns (`isDone_run`).
-/

namespace CppDeps

variable {n : ℕ}

namespace Digraph

/-- A node has at most as many successors as the graph has edges. -/
lemma length_successors_le (g : Digraph n) (v : Fin n) :
    (g.successors v).length ≤ g.edgeCount := by
  have hsum : ∀ (lists : List (List (Fin n))) (total : ℕ),
      lists.foldl (fun total targets => total + targets.length) total =
        total + (lists.map List.length).sum := by
    intro lists
    induction lists with
    | nil => simp
    | cons targets lists ih =>
      intro total
      rw [List.foldl_cons, ih, List.map_cons, List.sum_cons, Nat.add_assoc]
  have hmem : g.successors v ∈ g.next.toList := Vector.mem_toList_iff.2 (Vector.getElem_mem v.isLt)
  rw [edgeCount, ← Vector.foldl_toList, hsum, Nat.zero_add]
  exact List.le_sum_of_mem (List.mem_map_of_mem hmem)

end Digraph

namespace Search

variable {s : Search n} {w w' : Walk n}

/-! ## The weight of a state -/

/-- The worth of an untried edge at a node of the path that is the `d`-th one: a bound on the moves
that can follow from trying it. -/
def edgeWorth (s : Search n) (d : ℕ) : ℕ :=
  (s.graph.edgeCount + 2) ^ (n - d)

/-- A bound on the moves that are left: one for each node of the path, and the worth of the untried
edges. -/
def weight (s : Search n) : List (Frame n) → ℕ
  | [] => 0
  | frame :: outer =>
    1 + frame.untried.length * s.edgeWorth (outer.length + 1) + s.weight outer

/-- Every edge is worth a move. -/
lemma edgeWorth_pos (s : Search n) (d : ℕ) : 0 < s.edgeWorth d :=
  Nat.pow_pos (Nat.succ_pos _)

/-- Trying one edge takes its worth off the weight. -/
lemma weight_cons_cons (v u : Fin n) (untried : List (Fin n)) (closed : Bool)
    (outer : List (Frame n)) :
    s.weight (⟨v, u :: untried, closed⟩ :: outer) =
      s.weight (⟨v, untried, closed⟩ :: outer) + s.edgeWorth (outer.length + 1) := by
  simp only [weight, List.length_cons, Nat.succ_mul]
  omega

/-- Whether a cycle was closed does not matter to the weight. -/
lemma weight_markClosed (frames : List (Frame n)) : s.weight (markClosed frames) = s.weight frames := by
  cases frames <;> rfl

/-- A node that the path enters brings less than the edge to it was worth. -/
lemma weight_enter_lt (u : Fin n) {outer : List (Frame n)} (hroom : outer.length < n) :
    s.weight (s.enter u :: outer) < s.weight outer + s.edgeWorth outer.length := by
  have hworth : s.edgeWorth outer.length =
      (s.graph.edgeCount + 2) * s.edgeWorth (outer.length + 1) := by
    rw [edgeWorth, edgeWorth, ← pow_succ']
    congr 1
    omega
  have hpos := s.edgeWorth_pos (outer.length + 1)
  have hle := Nat.mul_le_mul_right (s.edgeWorth (outer.length + 1))
    (s.graph.length_successors_le u)
  rw [weight, hworth, Nat.add_mul]
  show 1 + (s.graph.successors u).length * _ + _ < _
  omega

/-- **Progress.**  Every move takes something off the weight. -/
theorem Move.weight_lt (hmove : s.Move w w') (h : s.Inv w) : s.weight w'.frames < s.weight w.frames := by
  have hnodup : w'.trail.Nodup := (h.move hmove).nodup
  cases hmove with
  | pass hframes _ | close hframes _ _ =>
    rw [hframes, weight_cons_cons]
    exact Nat.lt_add_of_pos_right (s.edgeWorth_pos _)
  | @enter v u untried closed outer hframes _ _ _ _ =>
    have hlength : (⟨v, untried, closed⟩ :: outer).length < n := by
      have hle := hnodup.length_le_card
      simpa [Walk.trail] using hle
    rw [hframes, weight_cons_cons]
    exact weight_enter_lt u hlength
  | @unblock v closed outer hframes _ =>
    show s.weight outer < _
    rw [hframes, weight]
    omega
  | @release v outer hframes _ =>
    show s.weight (markClosed outer) < _
    rw [hframes, weight, weight_markClosed]
    omega
  | @wait v outer hframes _ =>
    show s.weight outer < _
    rw [hframes, weight]
    omega

/-! ## Many moves -/

/-- What every move keeps is kept by however many steps. -/
lemma iterate_of_forall_move {P : Walk n → Prop} (hP : ∀ w w', P w → s.Move w w' → P w') (h : P w)
    (m : ℕ) : P (s.step^[m] w) := by
  induction m generalizing w with
  | zero => exact h
  | succ m ih =>
    rw [Function.iterate_succ_apply]
    by_cases hdone : w.isDone = true
    · rw [s.step_of_isDone hdone]
      exact ih h
    · exact ih (hP _ _ h (move_step hdone))

/-- However many steps are made, the invariant of the search is kept. -/
lemma Inv.iterate (h : s.Inv w) (m : ℕ) : s.Inv (s.step^[m] w) :=
  iterate_of_forall_move (fun _ _ h hmove => h.move hmove) h m

/-- A search that is over stays as it is. -/
lemma iterate_of_isDone (h : w.isDone = true) (m : ℕ) : s.step^[m] w = w :=
  Function.iterate_fixed (s.step_of_isDone h) m

/-- After as many steps as the weight of a state counts, a search is over. -/
lemma isDone_iterate (h : s.Inv w) {m : ℕ} (hm : s.weight w.frames ≤ m) :
    (s.step^[m] w).isDone = true := by
  induction m generalizing w with
  | zero =>
    rcases hframes : w.frames with _ | ⟨frame, outer⟩
    · simp [Walk.isDone, hframes]
    · rw [hframes, weight] at hm
      omega
  | succ m ih =>
    rw [Function.iterate_succ_apply]
    by_cases hdone : w.isDone = true
    · rw [s.step_of_isDone hdone, iterate_of_isDone hdone]
      exact hdone
    · have hmove := move_step (s := s) hdone
      have hlt := hmove.weight_lt h
      exact ih (h.move hmove) (by omega)

/-- `run` makes `2 ^ k` steps. -/
lemma run_eq_iterate (s : Search n) (k : ℕ) (w : Walk n) : s.run k w = s.step^[2 ^ k] w := by
  induction k generalizing w with
  | zero => rfl
  | succ k ih =>
    rw [run]
    simp only [ih]
    rw [pow_succ, Nat.mul_two, Function.iterate_add_apply]
    split
    · rename_i hdone
      rw [iterate_of_isDone hdone]
    · rfl

/-- The budget of a search exceeds the weight of its first state. -/
lemma weight_begin_le (s : Search n) (tally : Tally n) :
    s.weight (s.begin tally).frames ≤ 2 ^ s.depth := by
  have hn : 0 < n := Fin.pos s.start
  have hlt : s.weight [s.enter s.start] < 0 + s.edgeWorth 0 := weight_enter_lt s.start hn
  have hbase : s.graph.edgeCount + 2 ≤ 2 ^ (Nat.log2 (s.graph.edgeCount + 2) + 1) :=
    Nat.le_of_lt Nat.lt_log2_self
  calc s.weight (s.begin tally).frames
      ≤ (s.graph.edgeCount + 2) ^ n := by
        rw [Nat.zero_add, edgeWorth, Nat.sub_zero] at hlt
        exact Nat.le_of_lt hlt
    _ ≤ (2 ^ (Nat.log2 (s.graph.edgeCount + 2) + 1)) ^ n := Nat.pow_le_pow_left hbase n
    _ = 2 ^ ((Nat.log2 (s.graph.edgeCount + 2) + 1) * n) := (pow_mul _ _ _).symm
    _ ≤ 2 ^ s.depth := by
        refine Nat.pow_le_pow_right Nat.two_pos ?_
        rw [depth, Nat.mul_comm]
        exact Nat.mul_le_mul_right _ (Nat.le_succ n)

/-- **A search comes to an end.**  When `run` has used its budget, the search is over. -/
theorem isDone_run (s : Search n) (tally : Tally n) :
    (s.run s.depth (s.begin tally)).isDone = true := by
  rw [run_eq_iterate]
  exact isDone_iterate (s.inv_begin tally) (s.weight_begin_le tally)

end Search

end CppDeps
