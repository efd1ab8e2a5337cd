import CppDeps.Proofs.Cycle.Move

/-!
# Which nodes are blocked

With a bound on the length of cycles, the blocked nodes are the nodes of the path (`BoundedInv`).
Without a bound, a node may stay blocked after the path left it (`UnboundedInv`).  Such a node is a
dead end: its edges in scope lead to blocked nodes only, never to the start.

The delicate point is that releasing a node must not free a node of the path.  Nodes may wait for a
node long after they were freed through another one, so a node of the path may well be waiting.  What
is kept is an order: no node of the path waits, directly or through other blocked nodes, for a later
node of the path.  The node that is released is always the last one.
-/

namespace CppDeps

open Relation

namespace Search

variable {n : ℕ} {s : Search n} {w w' : Walk n}

/-! ## With a bound -/

/-- With a bound on the length of cycles, the blocked nodes are the nodes of the path. -/
structure BoundedInv (w : Walk n) : Prop where
  nodup : w.trail.Nodup
  blocked_iff : ∀ v, w.blocking.isBlocked v = true ↔ v ∈ w.trail

/-- With a bound, every move keeps the blocked nodes those of the path. -/
lemma BoundedInv.move (h : BoundedInv w) (hbound : s.limits.maxCycleLength ≠ none)
    (hmove : s.Move w w') : BoundedInv w' := by
  obtain ⟨hnodup, hblocked⟩ := h
  cases hmove with
  | pass hframes _ | close hframes _ _ =>
    rw [Walk.trail_eq_cons hframes] at hnodup hblocked
    exact ⟨hnodup, hblocked⟩
  | @enter v u _ _ _ hframes _ _ hfree _ =>
    have hnew : u ∉ w.trail := fun hu => hfree ((hblocked u).2 hu)
    rw [Walk.trail_eq_cons hframes] at hnodup hblocked hnew
    refine ⟨List.nodup_cons.2 ⟨hnew, hnodup⟩, fun x => ?_⟩
    show (w.blocking.block u).isBlocked x = true ↔ x ∈ u :: v :: _
    rw [Blocking.isBlocked_block_iff, hblocked, List.mem_cons (a := x) (b := u), eq_comm]
  | @unblock v _ outer hframes _ =>
    rw [Walk.trail_eq_cons hframes] at hnodup hblocked
    obtain ⟨hv, houter⟩ := List.nodup_cons.1 hnodup
    refine ⟨houter, fun x => ?_⟩
    show (w.blocking.unblock v).isBlocked x = true ↔ x ∈ outer.map Frame.node
    rw [Blocking.isBlocked_unblock_iff, hblocked, List.mem_cons]
    constructor
    · rintro ⟨hne, rfl | hx⟩
      · exact absurd rfl hne
      · exact hx
    · intro hx
      exact ⟨fun e => hv (e ▸ hx), Or.inr hx⟩
  | release _ hnone | wait _ hnone => exact absurd hnone hbound

/-! ## Without a bound -/

/-- The last nodes of the path, as long as no cycle was closed at them or after them, have only
blocked nodes among the successors in scope that were tried, and the start only where it is the node
itself. -/
def Settled (s : Search n) (b : Blocking n) : List (Frame n) → Prop
  | [] => True
  | frame :: outer =>
    frame.closed = false →
      (∃ tried, s.graph.successors frame.node = tried ++ frame.untried ∧
        ∀ u ∈ tried, s.inScope u = true →
          b.isBlocked u = true ∧ (u = s.start → frame.node = s.start)) ∧
      Settled s b outer

/-- Without a bound, a node that the path left may stay blocked. -/
structure UnboundedInv (s : Search n) (w : Walk n) : Prop where
  /-- The nodes of the path are blocked. -/
  blocked : ∀ v ∈ w.trail, w.blocking.isBlocked v = true
  /-- A blocked node off the path waits for each of its successors in scope, all of them blocked. -/
  sealed : ∀ v, w.blocking.isBlocked v = true → v ∉ w.trail →
    ∀ u ∈ s.graph.successors v, s.inScope u = true →
      w.blocking.isBlocked u = true ∧ v ∈ w.blocking.waitersOf u ∧ (u = s.start → v = s.start)
  /-- No node waits for a free node. -/
  awaited : ∀ v, ¬ w.blocking.isBlocked v = true → w.blocking.waitersOf v = []
  /-- No node of the path would be freed by the release of a later one. -/
  ordered : w.trail.Pairwise fun v u => ¬ ReflTransGen w.blocking.Frees v u
  settled : s.Settled w.blocking w.frames

/-- The path has no repeated node. -/
lemma UnboundedInv.nodup (h : s.UnboundedInv w) : w.trail.Nodup := by
  refine h.ordered.imp fun {v u} hfrees hvu => hfrees ?_
  rw [hvu]

/-- Settled nodes stay settled when more nodes are blocked. -/
lemma Settled.mono {b b' : Blocking n} (hb : ∀ v, b.isBlocked v = true → b'.isBlocked v = true)
    {frames : List (Frame n)} (h : s.Settled b frames) : s.Settled b' frames := by
  induction frames with
  | nil => trivial
  | cons frame outer ih =>
    intro hclosed
    obtain ⟨⟨tried, hsuccessors, htried⟩, houter⟩ := h hclosed
    refine ⟨⟨tried, hsuccessors, fun u hu hscope => ?_⟩, ih houter⟩
    exact (htried u hu hscope).imp_left (hb u)

/-- Passing over an edge to a blocked node leaves the path settled. -/
lemma Settled.pass {b : Blocking n} {v u : Fin n} {untried : List (Fin n)} {closed : Bool}
    {outer : List (Frame n)} (h : s.Settled b (⟨v, u :: untried, closed⟩ :: outer))
    (hu : s.inScope u = true → b.isBlocked u = true ∧ (u = s.start → v = s.start)) :
    s.Settled b (⟨v, untried, closed⟩ :: outer) := by
  intro hclosed
  obtain ⟨⟨tried, hsuccessors, htried⟩, houter⟩ := h hclosed
  refine ⟨⟨tried ++ [u], by simpa using hsuccessors, fun x hx hscope => ?_⟩, houter⟩
  rcases List.mem_append.1 hx with hx | hx
  · exact htried x hx hscope
  · obtain rfl := List.mem_singleton.1 hx
    exact hu hscope

/-- Marking the end of the path leaves it settled. -/
lemma settled_markClosed {b : Blocking n} (frames : List (Frame n)) :
    s.Settled b (markClosed frames) := by
  cases frames with
  | nil => trivial
  | cons frame outer => exact fun hclosed => Bool.noConfusion hclosed

/-- Blocking a node that no node waits for frees nothing more in chains from other nodes. -/
lemma frees_block {b : Blocking n} {u : Fin n} (hu : b.waitersOf u = []) {v x : Fin n}
    (hux : u ≠ x) (h : ReflTransGen (b.block u).Frees v x) : ReflTransGen b.Frees v x := by
  induction h with
  | refl => exact ReflTransGen.refl
  | @tail y x _ hyx ih =>
    have huy : u ≠ y := by
      rintro rfl
      rw [Blocking.Frees, Blocking.waitersOf_block, hu] at hyx
      exact List.not_mem_nil hyx.1
    have hblocked : b.isBlocked x = true := (Blocking.isBlocked_block_iff.1 hyx.2).resolve_left hux
    exact (ih huy).tail ⟨hyx.1, hblocked⟩

/-- Entering a free node keeps the invariant: no node waits for it, so its release could not free a
node of the path yet. -/
lemma UnboundedInv.enter (h : s.UnboundedInv w) {v u : Fin n} {untried : List (Fin n)}
    {closed : Bool} {outer : List (Frame n)} (hframes : w.frames = ⟨v, u :: untried, closed⟩ :: outer)
    (hstart : u ≠ s.start) (hfree : ¬ w.blocking.isBlocked u = true) :
    s.UnboundedInv
      { w with
        frames := s.enter u :: ⟨v, untried, closed⟩ :: outer
        blocking := w.blocking.block u } := by
  have htrail : w.trail = v :: outer.map Frame.node := Walk.trail_eq_cons hframes
  have hmono : ∀ x, w.blocking.isBlocked x = true → (w.blocking.block u).isBlocked x = true :=
    fun x hx => Blocking.isBlocked_block_iff.2 (Or.inr hx)
  have hself : (w.blocking.block u).isBlocked u = true :=
    Blocking.isBlocked_block_iff.2 (Or.inl rfl)
  have hnew : ∀ x ∈ w.trail, u ≠ x := by
    rintro x hx rfl
    exact hfree (h.blocked _ hx)
  have hnone : w.blocking.waitersOf u = [] := h.awaited u hfree
  have hsettled := h.settled
  rw [hframes] at hsettled
  obtain ⟨hblocked, hsealed, hawaited, hordered, -⟩ := h
  rw [htrail] at hblocked hsealed hordered hnew
  refine ⟨?_, ?_, ?_, ?_, ?_⟩
  · intro x hx
    rcases List.mem_cons.1 hx with rfl | hx
    · exact hself
    · exact hmono x (hblocked x hx)
  · intro x hx hxtrail y hy hscope
    obtain ⟨hxu, hxold⟩ := not_or.1 (mt List.mem_cons.2 hxtrail)
    have hxblocked : w.blocking.isBlocked x = true :=
      (Blocking.isBlocked_block_iff.1 hx).resolve_left fun e => hxu e.symm
    exact (hsealed x hxblocked hxold y hy hscope).imp_left (hmono y)
  · exact fun x hx => hawaited x fun hxblocked => hx (hmono x hxblocked)
  · show (u :: v :: outer.map Frame.node).Pairwise _
    refine List.pairwise_cons.2 ⟨fun x hx hfrees => ?_, ?_⟩
    · rcases ReflTransGen.cases_head (frees_block hnone (hnew x hx) hfrees) with hux | ⟨y, huy, -⟩
      · exact hnew x hx hux
      · rw [Blocking.Frees, hnone] at huy
        exact List.not_mem_nil huy.1
    · exact hordered.imp_of_mem fun _ hx hold hfrees => hold (frees_block hnone (hnew _ hx) hfrees)
  · refine fun _ => ⟨⟨[], rfl, fun _ hx => absurd hx List.not_mem_nil⟩, ?_⟩
    exact (hsettled.mono hmono).pass fun _ => ⟨hself, fun e => absurd e hstart⟩

/-- Releasing the last node of the path keeps the invariant: by the order of the path no other node
of it is freed. -/
lemma UnboundedInv.release (h : s.UnboundedInv w) {v : Fin n} {untried : List (Fin n)}
    {closed : Bool} {outer : List (Frame n)} (hframes : w.frames = ⟨v, untried, closed⟩ :: outer) :
    s.UnboundedInv
      { w with
        frames := markClosed outer
        blocking := w.blocking.release v } := by
  have htrail : w.trail = v :: outer.map Frame.node := Walk.trail_eq_cons hframes
  have hmark : (markClosed outer).map Frame.node = outer.map Frame.node :=
    map_node_markClosed outer
  obtain ⟨hblocked, hsealed, hawaited, hordered, -⟩ := h
  rw [htrail] at hblocked hsealed hordered
  obtain ⟨hlast, hordered⟩ := List.pairwise_cons.1 hordered
  have hfreed : ∀ x, (w.blocking.release v).isBlocked x = true ↔
      w.blocking.isBlocked x = true ∧ ¬ ReflTransGen w.blocking.Frees v x :=
    fun x => Blocking.isBlocked_release_iff (hblocked v List.mem_cons_self)
  refine ⟨?_, ?_, ?_, ?_, settled_markClosed outer⟩
  · intro x hx
    rw [Walk.trail, hmark] at hx
    exact (hfreed x).2 ⟨hblocked x (List.mem_cons_of_mem v hx), hlast x hx⟩
  · intro x hx hxtrail y hy hscope
    rw [Walk.trail, hmark] at hxtrail
    obtain ⟨hxblocked, hxkept⟩ := (hfreed x).1 hx
    have hxv : x ≠ v := by
      rintro rfl
      exact hxkept ReflTransGen.refl
    obtain ⟨hyblocked, hwaits, hystart⟩ :=
      hsealed x hxblocked (List.not_mem_cons_of_ne_of_not_mem hxv hxtrail) y hy hscope
    -- had `y` been freed, so would have been `x`, which waits for it
    have hy' : (w.blocking.release v).isBlocked y = true :=
      (hfreed y).2 ⟨hyblocked, fun hvy => hxkept (hvy.tail ⟨hwaits, hxblocked⟩)⟩
    exact ⟨hy', Blocking.mem_waitersOf_release_iff.2 ⟨hwaits, fun h => h.2 hy'⟩, hystart⟩
  · intro x hx
    refine List.eq_nil_iff_forall_not_mem.2 fun y hy => ?_
    obtain ⟨hyold, hkept⟩ := Blocking.mem_waitersOf_release_iff.1 hy
    have hxfree : ¬ w.blocking.isBlocked x = true := fun hxblocked => hkept ⟨hxblocked, hx⟩
    rw [hawaited x hxfree] at hyold
    exact List.not_mem_nil hyold
  · rw [Walk.trail, hmark]
    refine hordered.imp fun hold hfrees => hold (ReflTransGen.mono (fun y x hyx => ?_) _ _ hfrees)
    exact ⟨(Blocking.mem_waitersOf_release_iff.1 hyx.1).1, ((hfreed x).1 hyx.2).1⟩

/-- Letting `v` wait for some nodes frees nothing more in chains, except what `v` frees. -/
lemma frees_foldl_wait {b : Blocking n} {v : Fin n} {targets : List (Fin n)} {x y : Fin n}
    (h : ReflTransGen (targets.foldl (Blocking.wait v) b).Frees x y) :
    ReflTransGen b.Frees x y ∨ ReflTransGen b.Frees v y := by
  induction h with
  | refl => exact Or.inl ReflTransGen.refl
  | @tail y z _ hyz ih =>
    obtain ⟨hwaits, hz⟩ := hyz
    rw [Blocking.isBlocked_foldl_wait] at hz
    rcases Blocking.mem_waitersOf_foldl_wait_iff.1 hwaits with hwaits | ⟨rfl, -⟩
    · exact ih.imp (fun hxy => hxy.tail ⟨hwaits, hz⟩) fun hvy => hvy.tail ⟨hwaits, hz⟩
    · exact Or.inr ReflTransGen.refl

/-- Letting the last node of the path wait keeps the invariant: all its successors in scope are
blocked, and the node becomes a dead end itself. -/
lemma UnboundedInv.wait (h : s.UnboundedInv w) {v : Fin n} {outer : List (Frame n)}
    (hframes : w.frames = ⟨v, [], false⟩ :: outer) :
    s.UnboundedInv
      { w with
        frames := outer
        blocking :=
          ((s.graph.successors v).filter s.inScope).foldl (Blocking.wait v) w.blocking } := by
  have htrail : w.trail = v :: outer.map Frame.node := Walk.trail_eq_cons hframes
  have hsettled := h.settled
  rw [hframes] at hsettled
  obtain ⟨⟨tried, hsuccessors, htried⟩, houter⟩ := hsettled rfl
  rw [List.append_nil] at hsuccessors
  rw [← hsuccessors] at htried
  obtain ⟨hblocked, hsealed, hawaited, hordered, -⟩ := h
  rw [htrail] at hblocked hsealed hordered
  obtain ⟨hlast, hordered⟩ := List.pairwise_cons.1 hordered
  refine ⟨?_, ?_, ?_, ?_, ?_⟩
  · intro x hx
    rw [Blocking.isBlocked_foldl_wait]
    exact hblocked x (List.mem_cons_of_mem v hx)
  · intro x hx hxtrail y hy hscope
    rw [Blocking.isBlocked_foldl_wait] at hx
    rw [Blocking.isBlocked_foldl_wait, Blocking.mem_waitersOf_foldl_wait_iff]
    by_cases hxv : x = v
    · subst hxv
      obtain ⟨hyblocked, hystart⟩ := htried y hy hscope
      exact ⟨hyblocked, Or.inr ⟨rfl, List.mem_filter.2 ⟨hy, hscope⟩⟩, hystart⟩
    · obtain ⟨hyblocked, hwaits, hystart⟩ :=
        hsealed x hx (List.not_mem_cons_of_ne_of_not_mem hxv hxtrail) y hy hscope
      exact ⟨hyblocked, Or.inl hwaits, hystart⟩
  · intro x hx
    rw [Blocking.isBlocked_foldl_wait] at hx
    refine List.eq_nil_iff_forall_not_mem.2 fun y hy => ?_
    rcases Blocking.mem_waitersOf_foldl_wait_iff.1 hy with hy | ⟨-, hxs⟩
    · rw [hawaited x hx] at hy
      exact List.not_mem_nil hy
    · obtain ⟨hxsucc, hxscope⟩ := List.mem_filter.1 hxs
      exact hx (htried x hxsucc hxscope).1
  · refine hordered.imp_of_mem fun _ hy hold hfrees => ?_
    exact (frees_foldl_wait hfrees).elim hold (hlast _ hy)
  · refine houter.mono fun x hx => ?_
    rw [Blocking.isBlocked_foldl_wait]
    exact hx

/-- Without a bound, every move keeps the invariant. -/
lemma UnboundedInv.move (h : s.UnboundedInv w) (hbound : s.limits.maxCycleLength = none)
    (hmove : s.Move w w') : s.UnboundedInv w' := by
  have hroom : ∀ length, s.roomFor length = true := by
    intro length
    rw [roomFor, hbound]
    rfl
  cases hmove with
  | @pass v u untried closed outer hframes hpass =>
    have hsettled := h.settled
    obtain ⟨hblocked, hsealed, hawaited, hordered, -⟩ := h
    rw [Walk.trail_eq_cons hframes] at hblocked hsealed hordered
    rw [hframes] at hsettled
    refine ⟨hblocked, hsealed, hawaited, hordered, hsettled.pass fun hscope => ?_⟩
    rcases hpass with (hout | rfl) | ⟨hstart, hu | hfull⟩
    · exact absurd hscope (Bool.eq_false_iff.1 hout)
    · exact ⟨hblocked u List.mem_cons_self, id⟩
    · exact ⟨hu, fun e => absurd e hstart⟩
    · exact absurd (hroom _) (Bool.eq_false_iff.1 hfull)
  | @close v u untried closed outer hframes _ _ =>
    obtain ⟨hblocked, hsealed, hawaited, hordered, -⟩ := h
    rw [Walk.trail_eq_cons hframes] at hblocked hsealed hordered
    exact ⟨hblocked, hsealed, hawaited, hordered, fun hclosed => Bool.noConfusion hclosed⟩
  | enter hframes _ hstart hfree _ => exact h.enter hframes hstart hfree
  | unblock _ hsome => exact absurd hbound hsome
  | release hframes _ => exact h.release hframes
  | wait hframes _ => exact h.wait hframes

/-! ## Either mode -/

/-- The invariant of the search, for either mode. -/
structure Inv (s : Search n) (w : Walk n) : Prop where
  bounded : s.limits.maxCycleLength ≠ none → BoundedInv w
  unbounded : s.limits.maxCycleLength = none → s.UnboundedInv w

/-- A search begins with the invariant. -/
lemma inv_begin (s : Search n) (tally : Tally n) : s.Inv (s.begin tally) := by
  have hblocked : ∀ v, (s.begin tally).blocking.isBlocked v = true ↔ v ∈ (s.begin tally).trail := by
    intro v
    show (Blocking.none.block s.start).isBlocked v = true ↔ v ∈ [s.start]
    rw [Blocking.isBlocked_block_iff, Blocking.isBlocked_none, List.mem_singleton, eq_comm]
    simp
  refine ⟨fun _ => ⟨List.nodup_singleton _, hblocked⟩, fun _ => ⟨?_, ?_, ?_, ?_, ?_⟩⟩
  · exact fun v hv => (hblocked v).2 hv
  · exact fun v hv hvtrail => absurd ((hblocked v).1 hv) hvtrail
  · exact fun v _ => Blocking.waitersOf_none
  · exact List.pairwise_singleton _ _
  · exact fun _ => ⟨⟨[], rfl, fun _ hx => absurd hx List.not_mem_nil⟩, trivial⟩

/-- **The invariant of the search.**  Every move keeps it. -/
theorem Inv.move (h : s.Inv w) (hmove : s.Move w w') : s.Inv w' :=
  ⟨fun hbound => (h.bounded hbound).move hbound hmove,
    fun hbound => (h.unbounded hbound).move hbound hmove⟩

/-- The path has no repeated node. -/
lemma Inv.nodup (h : s.Inv w) : w.trail.Nodup := by
  by_cases hbound : s.limits.maxCycleLength = none
  · exact (h.unbounded hbound).nodup
  · exact (h.bounded hbound).nodup

/-- The nodes of the path are blocked. -/
lemma Inv.blocked (h : s.Inv w) {v : Fin n} (hv : v ∈ w.trail) : w.blocking.isBlocked v = true := by
  by_cases hbound : s.limits.maxCycleLength = none
  · exact (h.unbounded hbound).blocked v hv
  · exact ((h.bounded hbound).blocked_iff v).2 hv

/-- **Blocking hides no cycle.**  No cycle continues the path into a blocked node other than the
start. -/
lemma Inv.cyclesVia_eq_nil (h : s.Inv w) {u : Fin n} (hu : w.blocking.isBlocked u = true)
    (hstart : u ≠ s.start) : s.cyclesVia w.trail u = [] := by
  by_cases hmem : u ∈ w.trail
  · exact cyclesVia_of_mem hstart hmem
  · by_cases hbound : s.limits.maxCycleLength = none
    · -- the blocked nodes off the path, without the start, form a dead end
      refine cyclesVia_eq_nil_of_dead
        (fun v => w.blocking.isBlocked v = true ∧ v ∉ w.trail ∧ v ≠ s.start)
        (fun v hv x hx hscope => ?_) hstart ⟨hu, hmem, hstart⟩
      obtain ⟨hvblocked, hvtrail, hvstart⟩ := hv
      obtain ⟨hxblocked, -, hxstart⟩ :=
        (h.unbounded hbound).sealed v hvblocked hvtrail x hx hscope
      have hne : x ≠ s.start := fun e => hvstart (hxstart e)
      by_cases hxtrail : x ∈ w.trail
      · exact ⟨hne, Or.inr hxtrail⟩
      · exact ⟨hne, Or.inl ⟨hxblocked, hxtrail, hne⟩⟩
    · exact absurd (((h.bounded hbound).blocked_iff u).1 hu) hmem

end Search

end CppDeps
