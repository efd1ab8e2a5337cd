import CppDeps.Proofs.Cycle.Blocking

/-!
# Releasing one node after another

`Blocking.release` says at once which nodes are freed with a node.  Done by hand this takes a list of
nodes to be looked at: of these the next one is taken off, and if it is blocked it is freed and all that
wait for it come in front of the others, while no node waits for it any more (`Cascade.pass`).

The list may grow at each pass, and a node may be on it several times.  But what comes onto the list
leaves the lists of waiting nodes, so that both together become shorter by one node at each pass
(`Cascade.cost_pass`).  Hence the list is empty in the end, and then the nodes are released
(`Cascade.iterate_pass_cost`).  A node that is still blocked then was not freed on the way
(`Cascade.isBlocked_iterate_pass`).
-/

namespace CppDeps

variable {n : ℕ}

/-- Spreading looks up the successors of nodes only that were not reached before. -/
lemma spread_congr {next next' : Fin n → List (Fin n)} {work : List (Fin n)} {reached : NodeSet n}
    (h : ∀ v, ¬ reached.contains v = true → next v = next' v) :
    spread next work reached = spread next' work reached := by
  induction work, reached using spread.induct next with
  | case1 reached => rw [spread, spread]
  | case2 reached v work hv ih => rw [spread, if_pos hv, ih h, spread.eq_2 next', if_pos hv]
  | case3 reached v work hv ih =>
    have hnext : ∀ w, ¬ (reached.insert v).contains w = true → next w = next' w := by
      intro w hw
      refine h w fun hreached => hw ?_
      rw [NodeSet.contains_insert, hreached, Bool.or_true]
    rw [spread, if_neg hv, ih hnext, spread.eq_2 next', if_neg hv, h v hv]

namespace Blocking

/-- Releases several nodes at once, with all that wait for any of them. -/
def releaseAll (b : Blocking n) (work : List (Fin n)) : Blocking n :=
  let free := spread b.waitersOf work b.free
  { free := free
    waiting := Vector.ofFn fun w =>
      if b.isBlocked w && free.contains w then [] else b.waitersOf w }

/-- Frees `u`, and lets no node wait for it any more. -/
def freeOne (b : Blocking n) (u : Fin n) : Blocking n where
  free := b.free.insert u
  waiting := b.waiting.set u [] u.isLt

/-- The number of nodes that wait, each counted for every node that it waits for. -/
def waitingCount (b : Blocking n) : ℕ :=
  ∑ w, (b.waitersOf w).length

variable {b : Blocking n} {u w : Fin n} {work : List (Fin n)}

/-- Two states of blocking with the same free and waiting nodes are the same. -/
lemma ext_waitersOf {b b' : Blocking n} (hfree : b.free = b'.free)
    (hwaiting : ∀ w, b.waitersOf w = b'.waitersOf w) : b = b' := by
  obtain ⟨free, waiting⟩ := b
  obtain ⟨free', waiting'⟩ := b'
  obtain rfl : free = free' := hfree
  have hvector : waiting = waiting' := Vector.ext fun i hi => hwaiting ⟨i, hi⟩
  rw [hvector]

/-- The waiting nodes after several nodes were released. -/
lemma waitersOf_releaseAll :
    (b.releaseAll work).waitersOf w =
      if b.isBlocked w && (b.releaseAll work).free.contains w then [] else b.waitersOf w :=
  Vector.getElem_ofFn w.isLt

/-- Releasing no node changes nothing. -/
lemma releaseAll_nil : b.releaseAll [] = b := by
  have hfree : (b.releaseAll []).free = b.free := by
    show spread b.waitersOf [] b.free = b.free
    rw [spread]
  refine ext_waitersOf hfree fun w => ?_
  rw [waitersOf_releaseAll, hfree, isBlocked, Bool.not_and_self, if_neg Bool.false_ne_true]

/-- A node that was freed is waited for by none, and the others wait as before. -/
lemma waitersOf_freeOne : (b.freeOne u).waitersOf w = if u = w then [] else b.waitersOf w :=
  get_set_val _ _ _ _

/-- A free node is not released again. -/
lemma releaseAll_cons_of_not_isBlocked (hu : ¬ b.isBlocked u = true) :
    b.releaseAll (u :: work) = b.releaseAll work := by
  have hfree : b.free.contains u = true := not_not.1 (mt isBlocked_iff.2 hu)
  rw [releaseAll, spread, if_pos hfree, releaseAll]

/-- To release a blocked node is to free it and to release all that wait for it. -/
lemma releaseAll_cons_of_isBlocked (hu : b.isBlocked u = true) :
    b.releaseAll (u :: work) = (b.freeOne u).releaseAll (b.waitersOf u ++ work) := by
  have hunfree : ¬ b.free.contains u = true := isBlocked_iff.1 hu
  have hcontains : ∀ w, (b.freeOne u).free.contains w = (decide (u = w) || b.free.contains w) :=
    fun w => NodeSet.contains_insert _ _ _
  have hfree : (b.releaseAll (u :: work)).free =
      ((b.freeOne u).releaseAll (b.waitersOf u ++ work)).free := by
    show spread b.waitersOf (u :: work) b.free =
      spread (b.freeOne u).waitersOf (b.waitersOf u ++ work) (b.free.insert u)
    rw [spread, if_neg hunfree]
    refine spread_congr fun w hw => ?_
    have hne : u ≠ w := by
      rintro rfl
      exact hw (by rw [NodeSet.contains_insert, decide_eq_true rfl, Bool.true_or])
    rw [waitersOf_freeOne, if_neg hne]
  refine ext_waitersOf hfree fun w => ?_
  rw [waitersOf_releaseAll, waitersOf_releaseAll, ← hfree, waitersOf_freeOne, isBlocked, isBlocked,
    hcontains]
  by_cases huw : u = w
  · subst huw
    have hreleased : (b.releaseAll (u :: work)).free.contains u = true :=
      (contains_spread _ _ _ _).2
        (Or.inr ⟨u, List.mem_cons_self, hunfree, Relation.ReflTransGen.refl⟩)
    have hblocked : (!b.free.contains u) = true := hu
    rw [if_pos rfl, ite_self, hreleased, Bool.and_true, if_pos hblocked]
  · rw [if_neg huw, decide_eq_false huw, Bool.false_or]

/-- Freeing one node takes those that wait for it off the count. -/
lemma waitingCount_freeOne :
    (b.freeOne u).waitingCount + (b.waitersOf u).length = b.waitingCount := by
  have hsplit : ∀ w, (b.waitersOf w).length = ((b.freeOne u).waitersOf w).length +
      if u = w then (b.waitersOf u).length else 0 := by
    intro w
    rw [waitersOf_freeOne]
    split
    · rename_i huw
      rw [← huw, List.length_nil, Nat.zero_add]
    · rw [Nat.add_zero]
  rw [waitingCount, waitingCount, Finset.sum_congr rfl fun w _ => hsplit w, Finset.sum_add_distrib,
    Finset.sum_ite_eq, if_pos (Finset.mem_univ u)]

end Blocking

/-- The state of a cascade: the nodes still to be looked at, the next one first, and which nodes are
blocked by now. -/
structure Cascade (n : ℕ) where
  work : List (Fin n)
  blocking : Blocking n

namespace Cascade

/-- One pass of a cascade.  A cascade that is over stays as it is. -/
def pass (c : Cascade n) : Cascade n :=
  match c.work with
  | [] => c
  | u :: work =>
    if c.blocking.isBlocked u then
      { work := c.blocking.waitersOf u ++ work
        blocking := c.blocking.freeOne u }
    else { c with work := work }

/-- The cascade that releases one node. -/
def begin (b : Blocking n) (v : Fin n) : Cascade n where
  work := [v]
  blocking := b

/-- A bound on the number of passes that are left. -/
def cost (c : Cascade n) : ℕ :=
  c.work.length + c.blocking.waitingCount

/-- A cascade with nothing to be looked at makes no more passes. -/
lemma pass_of_work_eq_nil {c : Cascade n} (h : c.work = []) : c.pass = c := by
  rw [pass, h]

/-- Each pass takes one off the bound. -/
lemma cost_pass {c : Cascade n} (h : c.work ≠ []) : c.pass.cost + 1 = c.cost := by
  obtain ⟨_ | ⟨u, work⟩, b⟩ := c
  · exact absurd rfl h
  · simp only [pass]
    split
    · have hcount : (b.freeOne u).waitingCount + (b.waitersOf u).length = b.waitingCount :=
        Blocking.waitingCount_freeOne
      simp only [cost, List.length_append, List.length_cons]
      omega
    · simp only [cost, List.length_cons]
      omega

/-- A pass leaves it as it is what is released in the end. -/
lemma releaseAll_pass (c : Cascade n) :
    c.pass.blocking.releaseAll c.pass.work = c.blocking.releaseAll c.work := by
  obtain ⟨_ | ⟨u, work⟩, b⟩ := c
  · rfl
  · simp only [pass]
    split
    · rename_i hu
      exact (Blocking.releaseAll_cons_of_isBlocked hu).symm
    · rename_i hu
      exact (Blocking.releaseAll_cons_of_not_isBlocked hu).symm

/-- After as many passes as the bound says, nothing is to be looked at and all is released. -/
lemma iterate_pass_cost (c : Cascade n) :
    pass^[c.cost] c = ⟨[], c.blocking.releaseAll c.work⟩ := by
  induction hcost : c.cost generalizing c with
  | zero =>
    obtain ⟨work, b⟩ := c
    obtain rfl : work = [] := List.length_eq_zero_iff.1 (Nat.eq_zero_of_add_eq_zero_right hcost)
    rw [Blocking.releaseAll_nil]
    rfl
  | succ m ih =>
    by_cases hwork : c.work = []
    · rw [Function.iterate_fixed (pass_of_work_eq_nil hwork), hwork, Blocking.releaseAll_nil, ← hwork]
    · have hpass := cost_pass hwork
      rw [Function.iterate_succ_apply, ih c.pass (by omega), releaseAll_pass]

/-- **A cascade comes to an end**, and then the node and all that wait for it, directly or through other
blocked nodes, are released. -/
theorem exists_iterate_pass (b : Blocking n) (v : Fin n) :
    ∃ m, pass^[m] (begin b v) = ⟨[], b.release v⟩ :=
  ⟨_, iterate_pass_cost (begin b v)⟩

/-- A pass blocks no node. -/
lemma isBlocked_of_pass {c : Cascade n} {x : Fin n} (h : c.pass.blocking.isBlocked x = true) :
    c.blocking.isBlocked x = true := by
  obtain ⟨_ | ⟨u, work⟩, b⟩ := c
  · exact h
  · simp only [pass] at h
    split at h
    · have hfreed : (b.unblock u).isBlocked x = true := h
      exact (Blocking.isBlocked_unblock_iff.1 hfreed).2
    · exact h

/-- A node that is blocked after some passes was blocked before them. -/
lemma isBlocked_of_iterate_pass {c : Cascade n} {x : Fin n} {m : ℕ}
    (h : (pass^[m] c).blocking.isBlocked x = true) : c.blocking.isBlocked x = true := by
  induction m generalizing c with
  | zero => exact h
  | succ m ih => exact isBlocked_of_pass (ih h)

/-- A node that is not released with `v` is freed by none of the passes. -/
lemma isBlocked_iterate_pass {b : Blocking n} {v x : Fin n}
    (h : (b.release v).isBlocked x = true) (k : ℕ) :
    (pass^[k] (begin b v)).blocking.isBlocked x = true := by
  obtain ⟨m, hm⟩ := exists_iterate_pass b v
  have hend : pass^[m] (pass^[k] (begin b v)) = ⟨[], b.release v⟩ := by
    rw [← Function.iterate_add_apply, Nat.add_comm, Function.iterate_add_apply, hm]
    exact Function.iterate_fixed (pass_of_work_eq_nil rfl) k
  apply isBlocked_of_iterate_pass (m := m)
  rw [hend]
  exact h

end Cascade

end CppDeps
