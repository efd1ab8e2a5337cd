import CppDeps.Proofs.Cycle.Progress

/-!
# A search lists the cycles through its start

At every moment of a search the cycles that plain backtracking would still list, from the untried
edges of the path, make up what is missing from the tally (`Move.noteAll_pending`).  Since a search
comes to an end, it records the list of plain backtracking, in this order, up to the cap on the number
of cycles (`cycles_eq_noteAll`).
-/

namespace CppDeps

variable {n : ℕ}

namespace Tally

/-! ## Recording many cycles -/

/-- Records a cycle, unless the tally was cut short. -/
def note (limits : CycleLimits) (tally : Tally n) (cycle : List (Fin n)) : Tally n :=
  if tally.truncated then tally else tally.record limits cycle

/-- Records the cycles of a list one after another, until the tally is cut short. -/
def noteAll (limits : CycleLimits) (tally : Tally n) (cycles : List (List (Fin n))) : Tally n :=
  cycles.foldl (note limits) tally

/-- Two lists are recorded one after the other. -/
lemma noteAll_append (limits : CycleLimits) (tally : Tally n) (cycles cycles' : List (List (Fin n))) :
    tally.noteAll limits (cycles ++ cycles') = (tally.noteAll limits cycles).noteAll limits cycles' :=
  List.foldl_append

/-- Nothing is recorded in a tally that was cut short. -/
lemma noteAll_of_truncated (limits : CycleLimits) {tally : Tally n} (h : tally.truncated = true)
    (cycles : List (List (Fin n))) : tally.noteAll limits cycles = tally := by
  induction cycles with
  | nil => rfl
  | cons cycle cycles ih =>
    rw [noteAll, List.foldl_cons, note, if_pos h]
    exact ih

/-- Without a cap all cycles are recorded. -/
lemma noteAll_of_uncapped {limits : CycleLimits} (hcap : limits.maxCycles = none) {tally : Tally n}
    (h : tally.truncated = false) (cycles : List (List (Fin n))) :
    (tally.noteAll limits cycles).cycles.toList = tally.cycles.toList ++ cycles ∧
      (tally.noteAll limits cycles).truncated = false := by
  induction cycles generalizing tally with
  | nil => exact ⟨(List.append_nil _).symm, h⟩
  | cons cycle cycles ih =>
    have hnote : tally.note limits cycle = { tally with cycles := tally.cycles.push cycle } := by
      simp [note, record, h, hcap]
    rw [noteAll, List.foldl_cons, hnote]
    have hrest := @ih { tally with cycles := tally.cycles.push cycle } h
    rw [noteAll] at hrest
    simpa using hrest

/-- Under a cap as many cycles are recorded as the cap leaves room for, and a cycle beyond these, if
there is one, cuts the tally short. -/
lemma noteAll_of_capped {limits : CycleLimits} {cap : ℕ} (hcap : limits.maxCycles = some cap)
    {tally : Tally n} (h : tally.truncated = false) (hsize : tally.cycles.size ≤ cap)
    (cycles : List (List (Fin n))) :
    (tally.noteAll limits cycles).cycles.toList = (tally.cycles.toList ++ cycles).take cap ∧
      ((tally.noteAll limits cycles).truncated = true ↔ cap < tally.cycles.size + cycles.length) := by
  induction cycles generalizing tally with
  | nil =>
    have hall : tally.cycles.toList.length ≤ cap := hsize
    rw [List.append_nil, List.take_of_length_le hall]
    refine ⟨rfl, iff_of_false ?_ (not_lt.2 hsize)⟩
    exact Bool.eq_false_iff.1 h
  | cons cycle cycles ih =>
    have hrecord : tally.noteAll limits (cycle :: cycles) =
        (tally.record limits cycle).noteAll limits cycles := by
      rw [noteAll, noteAll, List.foldl_cons, note, h, if_neg Bool.false_ne_true]
    rw [hrecord, record, hcap, Option.any_some]
    by_cases hfull : cap ≤ tally.cycles.size
    · -- the cap is reached, so this cycle and all after it are left out
      have hlength : tally.cycles.toList.length = cap := le_antisymm hsize hfull
      rw [if_pos (decide_eq_true hfull), noteAll_of_truncated limits rfl,
        List.take_append_of_le_length hlength.ge, List.take_of_length_le hlength.le]
      refine ⟨rfl, iff_of_true rfl ?_⟩
      rw [List.length_cons]
      omega
    · have hroom : (tally.cycles.push cycle).size ≤ cap := by
        rw [Array.size_push]
        omega
      have hrest := @ih { tally with cycles := tally.cycles.push cycle } h hroom
      rw [if_neg (mt of_decide_eq_true hfull)]
      rw [Array.toList_push, List.append_assoc, List.singleton_append, Array.size_push] at hrest
      rw [List.length_cons, ← Nat.add_assoc, Nat.add_right_comm]
      exact hrest

end Tally

namespace Search

variable {s : Search n} {w w' : Walk n}

/-! ## What is still to be listed -/

/-- The cycles that plain backtracking lists from the untried edges of a path. -/
def pending (s : Search n) : List (Frame n) → List (List (Fin n))
  | [] => []
  | frame :: outer =>
    frame.untried.flatMap (s.cyclesVia (frame.node :: outer.map Frame.node)) ++ s.pending outer

/-- Trying one edge takes the cycles over it from what is still to be listed. -/
lemma pending_cons_cons (v u : Fin n) (untried : List (Fin n)) (closed closed' : Bool)
    (outer : List (Frame n)) :
    s.pending (⟨v, u :: untried, closed⟩ :: outer) =
      s.cyclesVia (v :: outer.map Frame.node) u ++ s.pending (⟨v, untried, closed'⟩ :: outer) := by
  simp only [pending, List.flatMap_cons, List.append_assoc]

/-- Whether a cycle was closed does not matter to what is still to be listed. -/
lemma pending_markClosed (frames : List (Frame n)) :
    s.pending (markClosed frames) = s.pending frames := by
  cases frames <;> rfl

/-- **Nothing is lost.**  A move keeps the tally together with what is still to be listed. -/
theorem Move.noteAll_pending (hmove : s.Move w w') (h : s.Inv w)
    (htruncated : w.tally.truncated = false) :
    w'.tally.noteAll s.limits (s.pending w'.frames) =
      w.tally.noteAll s.limits (s.pending w.frames) := by
  cases hmove with
  | @pass v u untried closed outer hframes hpass =>
    have hnil : s.cyclesVia (v :: outer.map Frame.node) u = [] := by
      have htrail : w.trail = v :: outer.map Frame.node := Walk.trail_eq_cons hframes
      rw [← htrail]
      rcases hpass with hskip | ⟨hstart, hblocked | hfull⟩
      · refine cyclesVia_of_skip (hskip.imp_right fun huv => ?_)
        rw [htrail, huv, List.head?_cons]
      · exact h.cyclesVia_eq_nil hblocked hstart
      · exact cyclesVia_of_full hstart hfull
    rw [hframes, pending_cons_cons _ _ _ _ closed, hnil, List.nil_append]
  | @close v u untried closed outer hframes hscope hstart =>
    have hskip : ¬ (s.inScope u = false ∨ (v :: outer.map Frame.node).head? = some u) := by
      rwa [List.head?_cons, Option.some.injEq, eq_comm (a := v)]
    have hpath : w.path = (v :: outer.map Frame.node).reverse := by
      rw [Walk.path, hframes, List.map_cons]
    have hnote : w.tally.note s.limits w.path = w.tally.record s.limits w.path := by
      simp [Tally.note, htruncated]
    rw [hframes, pending_cons_cons _ _ _ _ true, cyclesVia_of_start hskip hstart, ← hpath,
      Tally.noteAll_append, Tally.noteAll, Tally.noteAll, Tally.noteAll, List.foldl_cons,
      List.foldl_nil, hnote]
  | @enter v u untried closed outer hframes hscope hstart hfree hroom =>
    have htrail : w.trail = v :: outer.map Frame.node := Walk.trail_eq_cons hframes
    have hskip : ¬ (s.inScope u = false ∨ w.trail.head? = some u) := by
      rwa [htrail, List.head?_cons, Option.some.injEq, eq_comm (a := v)]
    have hnew : u ∉ w.trail := fun hu => hfree (h.blocked hu)
    have henter := cyclesVia_of_enter hskip hstart h.nodup hnew hroom
    rw [htrail] at henter
    rw [hframes, pending_cons_cons _ _ _ _ closed, henter]
    rfl
  | unblock hframes _ | wait hframes _ =>
    rw [hframes]
    rfl
  | @release v outer hframes _ =>
    show w.tally.noteAll s.limits (s.pending (markClosed outer)) = _
    rw [pending_markClosed, hframes]
    rfl

/-- Steps keep the tally together with what is still to be listed. -/
lemma noteAll_pending_iterate (h : s.Inv w) (m : ℕ) :
    (s.step^[m] w).tally.noteAll s.limits (s.pending (s.step^[m] w).frames) =
      w.tally.noteAll s.limits (s.pending w.frames) := by
  induction m generalizing w with
  | zero => rfl
  | succ m ih =>
    rw [Function.iterate_succ_apply]
    by_cases hdone : w.isDone = true
    · rw [s.step_of_isDone hdone]
      exact ih h
    · have hmove := move_step (s := s) hdone
      have htruncated : w.tally.truncated = false := by
        rw [Walk.isDone, Bool.or_eq_true, not_or] at hdone
        exact Bool.eq_false_iff.2 hdone.2
      rw [ih (h.move hmove), hmove.noteAll_pending h htruncated]

/-- **A search lists the cycles through its start.**  It records the cycles of plain backtracking in
their order, until the tally is cut short. -/
theorem cycles_eq_noteAll (s : Search n) (tally : Tally n) :
    s.cycles tally = tally.noteAll s.limits s.throughStart := by
  have hkept := noteAll_pending_iterate (s.inv_begin tally) (2 ^ s.depth)
  have hbegin : s.pending (s.begin tally).frames = s.throughStart := List.append_nil _
  rw [← run_eq_iterate, hbegin] at hkept
  have hdone := s.isDone_run tally
  rw [Walk.isDone, Bool.or_eq_true, List.isEmpty_iff] at hdone
  rw [cycles, ← show _ = tally.noteAll s.limits s.throughStart from hkept]
  rcases hdone with hframes | htruncated
  · rw [hframes]
    rfl
  · exact (Tally.noteAll_of_truncated s.limits htruncated _).symm

end Search

end CppDeps
