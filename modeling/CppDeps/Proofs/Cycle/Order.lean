import CppDeps.Proofs.Cycle.Sweep

/-!
# The order of the cycles

Successors are tried in ascending order and the start of a search is the least node in scope, so the
edge that closes a cycle is tried before the edges that make the path longer.  Hence the cycles through
one start are listed in lexicographic order, a cycle before those that extend it
(`Search.pairwise_throughStart`).  A node is the start of one search only, which keeps the cycles with a
common first node together; and the cycles of one node come before all others.

These three facts make up `InOrder`, which a list of cycles keeps when some of its cycles are left out
(`InOrder.sublist`) or its nodes are renamed in their order (`InOrder.map`).
-/

namespace CppDeps

/-! ## Lists in order -/

section InOrder

variable {α β : Type*}

/-- Lists with a common first element stand together: so does every list between two of them. -/
def Grouped (lists : List (List α)) : Prop :=
  ∀ a b c, List.Sublist [a, b, c] lists → a.head? = c.head? → b.head? = a.head?

/-- The order of a list of cycles, where those of one node come first. -/
structure InOrder [LT α] (cycles : List (List α)) : Prop where
  /-- Before a cycle of one node there are only such cycles, of lesser nodes. -/
  loops_first : cycles.Pairwise fun c d => d.length = 1 → c.length = 1 ∧ c < d
  /-- The longer cycles with a common first node stand together. -/
  grouped : Grouped (cycles.filter fun c => decide (c.length ≠ 1))
  /-- Of two longer cycles with a common first node the one that is less in the lexicographic order
  comes first. -/
  ascending : (cycles.filter fun c => decide (c.length ≠ 1)).Pairwise fun c d =>
    c.head? = d.head? → c < d

/-- Leaving lists out keeps the others together. -/
lemma Grouped.sublist {lists kept : List (List α)} (h : Grouped lists) (hkept : kept.Sublist lists) :
    Grouped kept :=
  fun a b c hsub => h a b c (hsub.trans hkept)

/-- Renaming the elements, different ones to different names, keeps lists together. -/
lemma Grouped.map {f : β → α} (hf : Function.Injective f) {lists : List (List β)} (h : Grouped lists) :
    Grouped (lists.map (List.map f)) := by
  intro a b c hsub hhead
  obtain ⟨triple, htriple, hmap⟩ := List.sublist_map_iff.1 hsub
  obtain ⟨a, b, c, rfl⟩ : ∃ a b c, triple = [a, b, c] := by
    have hlength := congrArg List.length hmap
    rw [List.length_map] at hlength
    exact List.length_eq_three.1 hlength.symm
  obtain ⟨rfl, rfl, rfl⟩ : _ = a.map f ∧ _ = b.map f ∧ _ = c.map f := by simpa using hmap
  rw [List.head?_map, List.head?_map] at hhead ⊢
  rw [h a b c htriple (Option.map_injective hf hhead)]

/-- Lists with one first element may stand in front of lists that do not have it. -/
lemma Grouped.append {front lists : List (List α)} {first : Option α}
    (hfront : ∀ a ∈ front, a.head? = first) (hlists : Grouped lists)
    (hnone : ∀ a ∈ lists, a.head? ≠ first) : Grouped (front ++ lists) := by
  intro a b c hsub hhead
  obtain ⟨before, after, hsplit, hbefore, hafter⟩ := List.sublist_append_iff.1 hsub
  rcases before with _ | ⟨a', before⟩
  · rw [List.nil_append] at hsplit
    exact hlists a b c (hsplit ▸ hafter) hhead
  · -- the first list is in front, so all three are
    rw [List.cons_append, List.cons.injEq] at hsplit
    obtain ⟨rfl, hsplit⟩ := hsplit
    have hfirst : a.head? = first := hfront a (hbefore.subset List.mem_cons_self)
    have hc : c ∉ lists := fun hmem => hnone c hmem (hhead.symm.trans hfirst)
    have hafternil : after = [] := by
      rcases List.eq_nil_or_concat after with hnil | ⟨rest, last, rfl⟩
      · exact hnil
      · rw [List.concat_eq_append] at hsplit hafter
        rw [← List.append_assoc] at hsplit
        obtain ⟨-, hlast⟩ := List.append_inj' (show [b] ++ [c] = _ from hsplit) rfl
        rw [← hlast] at hafter
        exact absurd (hafter.subset (List.mem_append_right rest List.mem_cons_self)) hc
    have hb : b ∈ before := by
      rw [hafternil, List.append_nil] at hsplit
      exact hsplit ▸ List.mem_cons_self
    rw [hfront b (hbefore.subset (List.mem_cons_of_mem a hb)), hfirst]

/-- Leaving cycles out keeps the others in order. -/
lemma InOrder.sublist [LT α] {cycles kept : List (List α)} (h : InOrder cycles)
    (hkept : kept.Sublist cycles) : InOrder kept where
  loops_first := h.loops_first.sublist hkept
  grouped := h.grouped.sublist (hkept.filter _)
  ascending := h.ascending.sublist (hkept.filter _)

/-- Renaming the nodes in their order keeps cycles in order. -/
lemma InOrder.map [LT α] [LT β] {f : β → α} (hf : Function.Injective f)
    (hlt : ∀ v w, v < w → f v < f w) {cycles : List (List β)} (h : InOrder cycles) :
    InOrder (cycles.map (List.map f)) := by
  have hfilter : (cycles.map (List.map f)).filter (fun c => decide (c.length ≠ 1)) =
      (cycles.filter fun c => decide (c.length ≠ 1)).map (List.map f) := by
    rw [List.filter_map]
    congr 1
    exact List.filter_congr fun c _ => by rw [Function.comp_apply, List.length_map]
  refine ⟨List.pairwise_map.2 (h.loops_first.imp fun {c d} hcd => ?_), ?_, ?_⟩
  · rw [List.length_map, List.length_map]
    exact fun hone => ⟨(hcd hone).1, List.map_lt hlt (hcd hone).2⟩
  · rw [hfilter]
    exact h.grouped.map hf
  · rw [hfilter]
    refine List.pairwise_map.2 (h.ascending.imp fun {c d} hcd hhead => List.map_lt hlt (hcd ?_))
    rw [List.head?_map, List.head?_map] at hhead
    exact Option.map_injective hf hhead

end InOrder

variable {n : ℕ}

namespace Search

variable {s : Search n} {trail : List (Fin n)} {u w : Fin n} {c d : List (Fin n)}

/-! ## One search -/

/-- Of two cycles that continue a path, the one with the lesser next edge is less, provided that the
start is the least node in scope. -/
lemma lt_of_mem_cyclesVia (hbound : s.limits.maxCycleLength = none)
    (hleast : ∀ v, s.inScope v = true → s.start ≤ v) (hnodup : trail.Nodup)
    (hstart : s.start ∈ trail) (hlt : u < w) (hc : c ∈ s.cyclesVia trail u)
    (hd : d ∈ s.cyclesVia trail w) : c < d := by
  obtain ⟨l, rfl, hl⟩ := (mem_cyclesVia_iff hbound hnodup hstart).1 hc
  obtain ⟨m, rfl, hm⟩ := (mem_cyclesVia_iff hbound hnodup hstart).1 hd
  have hu : s.start ≤ u := hleast u (hl.inScope u (List.mem_of_mem_head? hl.head?_eq))
  refine List.append_left_lt ?_
  rcases m with _ | ⟨w', m⟩
  · -- the second cycle is closed by an edge to the start, and no lesser node is in scope
    obtain rfl : s.start = w := Option.some.inj hm.head?_eq
    exact absurd hlt (not_lt.2 hu)
  obtain rfl : w' = w := Option.some.inj hm.head?_eq
  rcases l with _ | ⟨u', l⟩
  · exact List.nil_lt_cons w' m
  · obtain rfl : u' = u := Option.some.inj hl.head?_eq
    exact List.cons_lt_cons_iff.2 (Or.inl hlt)

/-- The cycles that continue a path over several edges in ascending order are in order, if this holds for
each edge. -/
lemma pairwise_flatMap_cyclesVia (hbound : s.limits.maxCycleLength = none)
    (hleast : ∀ v, s.inScope v = true → s.start ≤ v) (hnodup : trail.Nodup)
    (hstart : s.start ∈ trail) {targets : List (Fin n)} (htargets : targets.Pairwise (· < ·))
    (heach : ∀ u, (s.cyclesVia trail u).Pairwise (· < ·)) :
    (targets.flatMap (s.cyclesVia trail)).Pairwise (· < ·) := by
  refine List.pairwise_flatMap.2 ⟨fun u _ => heach u, htargets.imp fun hlt c hc d hd => ?_⟩
  exact lt_of_mem_cyclesVia hbound hleast hnodup hstart hlt hc hd

/-- The cycles that continue a path with one edge ascend. -/
lemma pairwise_cyclesVia (hbound : s.limits.maxCycleLength = none)
    (hleast : ∀ v, s.inScope v = true → s.start ≤ v)
    (hsuccessors : ∀ v, (s.graph.successors v).Pairwise (· < ·)) (hnodup : trail.Nodup)
    (hstart : s.start ∈ trail) (u : Fin n) : (s.cyclesVia trail u).Pairwise (· < ·) := by
  induction trail, u using cyclesVia.induct s with
  | case1 trail u h =>
    rw [cyclesVia_of_skip h]
    exact List.Pairwise.nil
  | case2 trail hskip =>
    rw [cyclesVia_of_start hskip rfl]
    exact List.pairwise_singleton _ _
  | case3 trail u hskip hu h ih =>
    have hnodup' : (u :: trail).Nodup := List.nodup_cons.2 ⟨h.1, hnodup⟩
    have hstart' : s.start ∈ u :: trail := List.mem_cons_of_mem u hstart
    rw [cyclesVia, if_neg hskip, if_neg hu, if_pos h]
    exact pairwise_flatMap_cyclesVia hbound hleast hnodup' hstart' (hsuccessors u)
      fun w => ih w hnodup' hstart'
  | case4 trail u hskip hu h =>
    rw [cyclesVia, if_neg hskip, if_neg hu, if_neg h]
    exact List.Pairwise.nil

/-- **The cycles through the start ascend**, provided that it is the least node in scope and that each
node has its successors in ascending order. -/
theorem pairwise_throughStart (hbound : s.limits.maxCycleLength = none)
    (hleast : ∀ v, s.inScope v = true → s.start ≤ v)
    (hsuccessors : ∀ v, (s.graph.successors v).Pairwise (· < ·)) :
    s.throughStart.Pairwise (· < ·) :=
  pairwise_flatMap_cyclesVia hbound hleast (List.nodup_singleton _) (List.mem_singleton_self _)
    (hsuccessors s.start) fun u =>
      pairwise_cyclesVia hbound hleast hsuccessors (List.nodup_singleton _)
        (List.mem_singleton_self _) u

end Search

variable {g : Digraph n}

namespace Sweep

/-! ## One sweep -/

/-- **A sweep keeps the cycles with a common first node together**, and lists these in ascending
order. -/
lemma grouped_listing {pending : List (List (Fin n))} (h : Inv pending)
    (hsuccessors : ∀ v, (g.successors v).Pairwise (· < ·)) (k : ℕ) :
    Grouped (listing g k pending) ∧
      (listing g k pending).Pairwise fun c d => c.head? = d.head? → c < d := by
  have hnil : Grouped ([] : List (List (Fin n))) := fun a b c hsub =>
    absurd hsub.length_le (by simp)
  induction k generalizing pending with
  | zero => exact ⟨hnil, List.Pairwise.nil⟩
  | succ k ih =>
    rcases pending with _ | ⟨_ | ⟨start, rest⟩, others⟩
    · exact ⟨hnil, List.Pairwise.nil⟩
    · exact absurd (h.two_le_length [] List.mem_cons_self) (by simp)
    · obtain ⟨hgrouped, hascending⟩ := ih h.next
      have hhead : ∀ c ∈ (searchIn g .unbounded (start :: rest) start).throughStart,
          c.head? = some start := fun c hc => ((Search.mem_throughStart_iff rfl).1 hc).1
      have hleast : ∀ v, (searchIn g .unbounded (start :: rest) start).inScope v = true →
          start ≤ v := fun v hv => h.start_le ((NodeSet.contains_ofList _ v).1 hv)
      rw [listing]
      refine ⟨hgrouped.append hhead fun c hc => head?_ne_of_mem_listing h hc, ?_⟩
      refine List.pairwise_append.2 ⟨?_, hascending, fun c hc d hd hcd => ?_⟩
      · refine List.Pairwise.imp ?_ (Search.pairwise_throughStart rfl hleast hsuccessors)
        exact fun hlt _ => hlt
      · exact absurd (hcd.symm.trans (hhead c hc)) (head?_ne_of_mem_listing h hd)

end Sweep

namespace Digraph

/-! ## All cycles -/

/-- **The list of all cycles is in order**, provided that each node has its successors in ascending
order. -/
theorem inOrder_allCycles (hsuccessors : ∀ v, (g.successors v).Pairwise (· < ·)) :
    InOrder g.allCycles := by
  have hinv : Sweep.Inv (g.components (List.finRange n)) :=
    Sweep.inv_components g (List.pairwise_lt_finRange n)
  have hone : ∀ c ∈ g.selfCycles, c.length = 1 := fun c hc => (mem_selfCycles_iff.1 hc).1
  have htwo : ∀ c ∈ Sweep.listing g n (g.components (List.finRange n)), c.length ≠ 1 := by
    intro c hc
    have hle := (Sweep.of_mem_listing hc).1
    omega
  have hlonger : g.allCycles.filter (fun c => decide (c.length ≠ 1)) =
      Sweep.listing g n (g.components (List.finRange n)) := by
    rw [allCycles, List.filter_append, List.filter_eq_nil_iff.2, List.nil_append,
      List.filter_eq_self.2]
    · exact fun c hc => decide_eq_true (htwo c hc)
    · exact fun c hc => by simp [hone c hc]
  obtain ⟨hgrouped, hascending⟩ := Sweep.grouped_listing hinv hsuccessors n
  refine ⟨List.pairwise_append.2 ⟨?_, ?_, fun c _ d hd hlength => ?_⟩, hlonger ▸ hgrouped,
    hlonger ▸ hascending⟩
  · refine List.pairwise_map.2 (((List.pairwise_lt_finRange n).filter _).imp fun hlt _ => ⟨rfl, ?_⟩)
    exact List.cons_lt_cons_iff.2 (Or.inl hlt)
  · exact List.pairwise_of_forall_mem_list fun c _ d hd hlength => absurd hlength (htwo d hd)
  · exact absurd hlength (htwo d hd)

end Digraph

end CppDeps
