import Mathlib.Data.List.Nodup
import Mathlib.Tactic

/-!
# Lists that are built piece by piece

Files are numbered, and call targets are linked, in the order of their first occurrence.  In both
places a list grows by one element unless it has that element already.  The outcome is the list
without its repetitions (`List.eraseDups`); the first lemmas say how that list grows, in which order it
keeps its elements, and that an element stays at its position when the list grows.

The definitions in an index and the edges of a pass come in groups, one for each file.  Since what
tells the groups apart can be seen from each member, picking out members is picking out groups.

An include path means what the first of several searches finds.
-/

namespace CppDeps

/-! ## First occurrences -/

section FirstOccurrences

variable {α : Type*} [BEq α] [LawfulBEq α]

/-- One more element comes last, unless it was there before. -/
lemma eraseDups_concat (l : List α) (a : α) :
    (l ++ [a]).eraseDups = if a ∈ l then l.eraseDups else l.eraseDups ++ [a] := by
  rw [List.eraseDups_append]
  by_cases ha : a ∈ l
  · have hnone : [a].removeAll l = [] := by simp [List.removeAll, ha]
    rw [if_pos ha, hnone, List.eraseDups_nil, List.append_nil]
  · have hone : [a].removeAll l = [a] := by simp [List.removeAll, ha]
    rw [if_neg ha, hone, List.eraseDups_cons, List.filter_nil, List.eraseDups_nil]

/-- No element is left twice. -/
lemma nodup_eraseDups (l : List α) : l.eraseDups.Nodup := by
  induction l using List.reverseRecOn with
  | nil => exact List.nodup_nil
  | append_singleton l a ih =>
    rw [eraseDups_concat]
    split
    · exact ih
    · rename_i ha
      exact List.nodup_append.2 ⟨ih, List.nodup_singleton a, fun b hb c hc hbc =>
        ha (List.mem_singleton.1 hc ▸ hbc ▸ List.mem_eraseDups.1 hb)⟩

/-- The elements are left in the order of their first occurrence. -/
lemma pairwise_idxOf_eraseDups (l : List α) :
    l.eraseDups.Pairwise fun a b => l.idxOf a < l.idxOf b := by
  induction l using List.reverseRecOn with
  | nil => exact List.Pairwise.nil
  | append_singleton l a ih =>
    have hkeep : ∀ b ∈ l.eraseDups, (l ++ [a]).idxOf b = l.idxOf b := fun b hb =>
      List.idxOf_append_of_mem (List.mem_eraseDups.1 hb)
    have hbefore : l.eraseDups.Pairwise fun b c => (l ++ [a]).idxOf b < (l ++ [a]).idxOf c := by
      refine ih.imp_of_mem fun hb hc hlt => ?_
      rw [hkeep _ hb, hkeep _ hc]
      exact hlt
    rw [eraseDups_concat]
    split
    · exact hbefore
    · rename_i ha
      refine List.pairwise_append.2 ⟨hbefore, List.pairwise_singleton _ a, fun b hb c hc => ?_⟩
      have hlt : l.idxOf b < l.length := List.idxOf_lt_length_iff.2 (List.mem_eraseDups.1 hb)
      rw [List.mem_singleton.1 hc, hkeep b hb, List.idxOf_append_of_notMem ha]
      omega

/-- It does not matter whether repetitions are dropped before or after elements are picked out. -/
lemma filter_eraseDups (p : α → Bool) (l : List α) :
    l.eraseDups.filter p = (l.filter p).eraseDups := by
  induction l using List.reverseRecOn with
  | nil => rfl
  | append_singleton l a ih =>
    rw [eraseDups_concat, List.filter_append]
    cases hp : p a with
    | false =>
      have hnone : [a].filter p = [] := by rw [List.filter_singleton, hp, cond_false]
      rw [hnone, List.append_nil, ← ih]
      split
      · rfl
      · rw [List.filter_append, hnone, List.append_nil]
    | true =>
      have hone : [a].filter p = [a] := by rw [List.filter_singleton, hp, cond_true]
      have hmem : a ∈ l.filter p ↔ a ∈ l := by
        rw [List.mem_filter]
        exact and_iff_left hp
      rw [hone, eraseDups_concat]
      simp only [hmem]
      split
      · exact ih
      · rw [List.filter_append, ih, hone]

/-- The first element that passes a test is the same without the repetitions. -/
lemma find?_eraseDups (p : α → Bool) (l : List α) : l.eraseDups.find? p = l.find? p := by
  have hhead : ∀ l : List α, l.eraseDups.head? = l.head? := by
    intro l
    cases l with
    | nil => rfl
    | cons a l => rw [List.eraseDups_cons, List.head?_cons, List.head?_cons]
  rw [← List.head?_filter, filter_eraseDups, hhead, List.head?_filter]

/-- An element keeps its position among the first occurrences when more elements come. -/
lemma idxOf_eraseDups_append {l : List α} {a : α} (ha : a ∈ l) (l' : List α) :
    (l ++ l').eraseDups.idxOf a = l.eraseDups.idxOf a := by
  rw [List.eraseDups_append, List.idxOf_append_of_mem (List.mem_eraseDups.2 ha)]

/-- A new element comes to stand behind all the others. -/
lemma idxOf_eraseDups_concat {l : List α} {a : α} (ha : a ∉ l) :
    (l ++ [a]).eraseDups.idxOf a = l.eraseDups.length := by
  have ha' : a ∉ l.eraseDups := fun hmem => ha (List.mem_eraseDups.1 hmem)
  rw [eraseDups_concat, if_neg ha, List.idxOf_append_of_notMem ha', List.idxOf_cons_self,
    Nat.add_zero]

end FirstOccurrences

/-! ## Positions -/

section Positions

variable {α β : Type*} [BEq α] [LawfulBEq α] [BEq β] [LawfulBEq β]

/-- Looking for an element that is there finds its position. -/
lemma idxOf?_of_mem {l : List α} {a : α} (h : a ∈ l) : l.idxOf? a = some (l.idxOf a) := by
  have hlt : l.idxOf a < l.length := List.idxOf_lt_length_iff.2 h
  refine List.idxOf?_eq_some_iff.2 ⟨hlt, List.getElem_idxOf hlt, fun j hj hget => ?_⟩
  exact beq_eq_false_iff_ne.1 (List.not_of_lt_findIdx hj) hget

/-- An element whose image is that of no other keeps its position. -/
lemma idxOf_map_of_forall {f : α → β} {l : List α} {a : α} (h : ∀ b ∈ l, f b = f a → b = a) :
    (l.map f).idxOf (f a) = l.idxOf a := by
  induction l with
  | nil => rfl
  | cons b l ih =>
    have hhead : (f b == f a) = (b == a) := by
      rw [Bool.eq_iff_iff, beq_iff_eq, beq_iff_eq]
      exact ⟨h b List.mem_cons_self, congrArg f⟩
    rw [List.map_cons, List.idxOf_cons, List.idxOf_cons, hhead,
      ih fun c hc => h c (List.mem_cons_of_mem b hc)]

end Positions

/-! ## Groups -/

section Groups

variable {α β : Type*}

/-- Picking out the members of some groups, by a test that agrees on each group, is picking out these
groups. -/
lemma filter_flatMap_of_forall {group : α → List β} {member : β → Bool} {chosen : α → Bool}
    (h : ∀ a, ∀ b ∈ group a, member b = chosen a) (l : List α) :
    (l.flatMap group).filter member = (l.filter chosen).flatMap group := by
  induction l with
  | nil => rfl
  | cons a l ih =>
    rw [List.flatMap_cons, List.filter_append, ih, List.filter_cons]
    cases hchosen : chosen a with
    | true =>
      have hall : (group a).filter member = group a :=
        List.filter_eq_self.2 fun b hb => (h a b hb).trans hchosen
      rw [hall, if_pos rfl, List.flatMap_cons]
    | false =>
      have hnone : (group a).filter member = [] := by
        refine List.filter_eq_nil_iff.2 fun b hb hmember => ?_
        rw [h a b hb, hchosen] at hmember
        exact Bool.false_ne_true hmember
      rw [hnone, if_neg Bool.false_ne_true, List.nil_append]

/-- Lists that agree on the members chosen agree on fewer. -/
lemma filter_eq_filter_of_imp {p q : α → Bool} {l l' : List α} (h : l.filter p = l'.filter p)
    (himp : ∀ a, q a = true → p a = true) : l.filter q = l'.filter q := by
  have hfewer : ∀ l : List α, (l.filter p).filter q = l.filter q := by
    intro l
    rw [List.filter_filter]
    refine List.filter_congr fun a _ => ?_
    cases hq : q a with
    | false => rfl
    | true => exact himp a hq
  rw [← hfewer l, h, hfewer l']

/-- Where no key occurs twice, an entry is the only one with its key. -/
lemma filter_fst_eq_singleton [DecidableEq α] {entries : List (α × β)}
    (hnodup : (entries.map Prod.fst).Nodup) {entry : α × β} (hentry : entry ∈ entries) :
    entries.filter (fun other => other.1 == entry.1) = [entry] := by
  induction entries with
  | nil => exact absurd hentry List.not_mem_nil
  | cons first entries ih =>
    rw [List.map_cons, List.nodup_cons] at hnodup
    rw [List.filter_cons]
    rcases List.mem_cons.1 hentry with rfl | hentry
    · have hnone : entries.filter (fun other => other.1 == entry.1) = [] := by
        refine List.filter_eq_nil_iff.2 fun other hother hkey => hnodup.1 ?_
        rw [← beq_iff_eq.1 hkey]
        exact List.mem_map_of_mem hother
      rw [if_pos (beq_self_eq_true _), hnone]
    · have hne : ¬ (first.1 == entry.1) = true := by
        intro hkey
        rw [beq_iff_eq.1 hkey] at hnodup
        exact hnodup.1 (List.mem_map_of_mem hentry)
      rw [if_neg hne]
      exact ih hnodup.2 hentry

end Groups

/-! ## Searches -/

section Searches

variable {α β : Type*}

/-- A search goes on only if it did not succeed. -/
lemma findSome?_cons_eq_or (f : α → Option β) (a : α) (l : List α) :
    (a :: l).findSome? f = (f a).or (l.findSome? f) := by
  rw [List.findSome?_cons]
  cases f a <;> rfl

/-- If each search finds what it found before or `b`, then so do all of them together. -/
lemma findSome?_eq_or_eq_some {before after : α → Option β} {b : β} {l : List α}
    (h : ∀ a ∈ l, after a = before a ∨ after a = some b) :
    l.findSome? after = l.findSome? before ∨ l.findSome? after = some b := by
  induction l with
  | nil => exact Or.inl rfl
  | cons a l ih =>
    rw [findSome?_cons_eq_or, findSome?_cons_eq_or]
    rcases h a List.mem_cons_self with hsame | hnew
    · rw [hsame]
      cases before a with
      | some c => exact Or.inl rfl
      | none => exact ih fun a' ha' => h a' (List.mem_cons_of_mem a ha')
    · rw [hnew]
      exact Or.inr rfl

/-- Searches that succeed only where an earlier one did add nothing. -/
lemma findSome?_append_eq_left {f : α → Option β} {l l' : List α}
    (h : ∀ a' ∈ l', (f a').isSome = true → ∃ a ∈ l, (f a).isSome = true) :
    (l ++ l').findSome? f = l.findSome? f := by
  rw [List.findSome?_append]
  cases hl : l.findSome? f with
  | some b => rfl
  | none =>
    rw [Option.none_or, List.findSome?_eq_none_iff]
    intro a' ha'
    by_contra hsome
    obtain ⟨a, ha, hfound⟩ := h a' ha' (Option.isSome_iff_ne_none.2 hsome)
    rw [List.findSome?_eq_none_iff.1 hl a ha] at hfound
    exact Bool.false_ne_true hfound

/-- What is found has the property that was looked for. -/
lemma of_find?_eq_some {p : α → Prop} [DecidablePred p] {l : List α} {a : α}
    (h : (l.find? fun b => p b) = some a) : p a := by
  have hfound := List.find?_some h
  exact of_decide_eq_true hfound

/-- Where at most one element passes a test, a search finds the same among the same elements, in
whatever order and however often these occur. -/
lemma find?_eq_of_unique {p : α → Bool} {l l' : List α} (hsame : ∀ a, a ∈ l ↔ a ∈ l')
    (hunique : ∀ a ∈ l, ∀ b ∈ l, p a = true → p b = true → a = b) : l.find? p = l'.find? p := by
  cases hfound : l.find? p with
  | none =>
    refine (List.find?_eq_none.2 fun a ha => ?_).symm
    exact List.find?_eq_none.1 hfound a ((hsame a).2 ha)
  | some a =>
    have ha : a ∈ l := List.mem_of_find?_eq_some hfound
    have hpass : p a = true := List.find?_some hfound
    cases hfound' : l'.find? p with
    | none => exact absurd hpass (List.find?_eq_none.1 hfound' a ((hsame a).1 ha))
    | some b =>
      have hb : b ∈ l := (hsame b).2 (List.mem_of_find?_eq_some hfound')
      rw [hunique a ha b hb hpass (List.find?_some hfound')]

end Searches

end CppDeps
