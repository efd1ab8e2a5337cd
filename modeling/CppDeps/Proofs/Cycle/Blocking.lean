import CppDeps.Cycle.Blocking
import CppDeps.Proofs.Digraph.Reachability

/-!
# What blocking and releasing do

One lemma for each operation on blocked nodes says which nodes are blocked afterwards, and one says
which nodes wait for which.  Releasing a node frees exactly the blocked nodes that a chain of waiting
nodes joins to it (`isBlocked_release_iff`).
-/

namespace CppDeps

open Relation

namespace Blocking

variable {n : ℕ} {b : Blocking n} {u v w : Fin n}

/-- A node is blocked if it is not free. -/
lemma isBlocked_iff : b.isBlocked v = true ↔ ¬ b.free.contains v = true := by
  rw [isBlocked, Bool.not_eq_true', ← Bool.not_eq_true]

/-! ## No nodes blocked -/

/-- At first no node is blocked. -/
@[simp] lemma isBlocked_none : (none : Blocking n).isBlocked v = false := by
  simp [isBlocked, none]

/-- At first no node waits. -/
@[simp] lemma waitersOf_none : (none : Blocking n).waitersOf v = [] :=
  Vector.getElem_replicate v.isLt

/-! ## Blocking and freeing one node -/

/-- Blocking a node blocks that node and keeps the others as they are. -/
lemma isBlocked_block_iff : (b.block v).isBlocked w = true ↔ v = w ∨ b.isBlocked w = true := by
  rw [isBlocked_iff, isBlocked_iff, block, NodeSet.contains_erase, Bool.and_eq_true,
    Bool.not_eq_true', decide_eq_false_iff_not]
  tauto

/-- Blocking a node lets no node wait. -/
@[simp] lemma waitersOf_block : (b.block v).waitersOf w = b.waitersOf w :=
  rfl

/-- Freeing one node keeps the others as they are. -/
lemma isBlocked_unblock_iff : (b.unblock v).isBlocked w = true ↔ v ≠ w ∧ b.isBlocked w = true := by
  rw [isBlocked_iff, isBlocked_iff, unblock, NodeSet.contains_insert, Bool.or_eq_true,
    decide_eq_true_iff]
  tauto

/-! ## Waiting -/

/-- Waiting blocks and frees no node. -/
@[simp] lemma isBlocked_wait : (wait u b v).isBlocked w = b.isBlocked w := by
  rw [wait]
  split <;> rfl

/-- Letting `u` wait for `v` adds `u` to the nodes that wait for `v` and changes nothing else. -/
lemma mem_waitersOf_wait_iff {x : Fin n} :
    x ∈ (wait u b v).waitersOf w ↔ x ∈ b.waitersOf w ∨ (x = u ∧ w = v) := by
  rw [wait]
  split
  · rename_i h
    rw [List.contains_iff_mem] at h
    constructor
    · exact Or.inl
    · rintro (hx | ⟨rfl, rfl⟩)
      · exact hx
      · exact h
  · rw [waitersOf, get_set_val]
    by_cases hvw : v = w
    · subst hvw
      rw [if_pos rfl, List.mem_cons]
      tauto
    · rw [if_neg hvw]
      have hwv : w ≠ v := fun e => hvw e.symm
      tauto

/-- Waiting for several nodes blocks and frees no node. -/
@[simp] lemma isBlocked_foldl_wait (targets : List (Fin n)) :
    (targets.foldl (wait u) b).isBlocked w = b.isBlocked w := by
  induction targets generalizing b with
  | nil => rfl
  | cons v targets ih => rw [List.foldl_cons, ih, isBlocked_wait]

/-- Letting `u` wait for several nodes adds `u` to the nodes that wait for them and changes nothing
else. -/
lemma mem_waitersOf_foldl_wait_iff {targets : List (Fin n)} {x : Fin n} :
    x ∈ (targets.foldl (wait u) b).waitersOf w ↔ x ∈ b.waitersOf w ∨ (x = u ∧ w ∈ targets) := by
  induction targets generalizing b with
  | nil => simp
  | cons v targets ih =>
    rw [List.foldl_cons, ih, mem_waitersOf_wait_iff, List.mem_cons]
    tauto

/-! ## Releasing -/

/-- Releasing `v` frees `w` as well, since `w` is blocked and waits for `v`. -/
def Frees (b : Blocking n) (v w : Fin n) : Prop :=
  w ∈ b.waitersOf v ∧ b.isBlocked w = true

/-- Releasing frees exactly the nodes that a chain of waiting nodes joins to the one released. -/
lemma isBlocked_release_iff (hv : b.isBlocked v = true) :
    (b.release v).isBlocked w = true ↔ b.isBlocked w = true ∧ ¬ ReflTransGen b.Frees v w := by
  have hstep : SpreadStep b.waitersOf b.free = b.Frees := by
    funext x y
    rw [SpreadStep, Frees, isBlocked_iff]
  have hfree : ¬ b.free.contains v = true := isBlocked_iff.1 hv
  rw [isBlocked_iff, release, contains_spread, hstep, isBlocked_iff, not_or]
  simp only [List.mem_singleton, exists_eq_left]
  tauto

/-- Releasing lets no node wait for a node that was freed, and keeps the others waiting. -/
lemma mem_waitersOf_release_iff {x : Fin n} :
    x ∈ (b.release v).waitersOf w ↔
      x ∈ b.waitersOf w ∧ ¬ (b.isBlocked w = true ∧ ¬ (b.release v).isBlocked w = true) := by
  have hwaiting : (b.release v).waitersOf w =
      if b.isBlocked w && (b.release v).free.contains w then [] else b.waitersOf w :=
    Vector.getElem_ofFn w.isLt
  rw [hwaiting, isBlocked_iff (b := b.release v), not_not, ← Bool.and_eq_true]
  split
  · rename_i h
    simp [h]
  · rename_i h
    simp [h]

end Blocking

end CppDeps
