import CppDeps.Proofs.FileGraph.Construction

/-!
# The numbers of files and edges

A graph of files is built by adding files and edges in any order, also such that an edge is refused at
first because one of its ends is missing, and is added later.  What was added can be told from the
actions alone: the files (`FileGraph.filesOf`), and the pairs of files for which both ends were there
(`FileGraph.linksOf`).  The number of a file is its rank among the distinct files, and that of an edge its
rank among the distinct pairs, both in the order of their first additions, and no later action changes
them (`FileGraph.numbers_run`).
-/

namespace CppDeps

namespace FileGraph

variable {graph : FileGraph} {files : List String} {links : List (String × String)}
  {source target : String}

/-! ## What actions add -/

/-- The file that an action adds. -/
def Action.file? : Action → Option String
  | .addNode file => some file
  | .addEdge _ _ => none

/-- The files that actions add, as often as they do. -/
def filesOf (actions : List Action) : List String :=
  actions.filterMap Action.file?

/-- The two files that an action links, if both are known. -/
def Action.link? (known : List String) : Action → Option (String × String)
  | .addNode _ => none
  | .addEdge source target =>
    if source ∈ known ∧ target ∈ known then some (source, target) else none

/-- The pairs of files that actions link where some files are known already. -/
def linksAfter (known : List String) : List Action → List (String × String)
  | [] => []
  | action :: actions =>
    (action.link? known).toList ++ linksAfter (known ++ action.file?.toList) actions

/-- The pairs of files that actions link, as often as they do: a pair counts if both files were added
before. -/
def linksOf (actions : List Action) : List (String × String) :=
  linksAfter [] actions

/-- One more action adds its file. -/
lemma filesOf_concat (actions : List Action) (action : Action) :
    filesOf (actions ++ [action]) = filesOf actions ++ action.file?.toList := by
  rw [filesOf, List.filterMap_append]
  cases action <;> rfl

/-- Actions link what the first of them do, and what the others do where the files of the first are
known too. -/
lemma linksAfter_append (known : List String) (actions actions' : List Action) :
    linksAfter known (actions ++ actions') =
      linksAfter known actions ++ linksAfter (known ++ filesOf actions) actions' := by
  induction actions generalizing known with
  | nil => rw [filesOf, List.filterMap_nil, List.append_nil]; rfl
  | cons action actions ih =>
    have hfiles : filesOf (action :: actions) = action.file?.toList ++ filesOf actions := by
      cases action <;> rfl
    rw [List.cons_append, linksAfter, linksAfter, ih, hfiles, List.append_assoc, List.append_assoc]

/-- One more action adds its link. -/
lemma linksOf_concat (actions : List Action) (action : Action) :
    linksOf (actions ++ [action]) =
      linksOf actions ++ (action.link? (filesOf actions)).toList := by
  rw [linksOf, linksAfter_append, List.nil_append, linksAfter, linksAfter, List.append_nil]
  rfl

/-! ## Files and links of a graph -/

/-- A graph numbers some files and links: it has each file once in the order of the first additions, and
an edge for each link, again in the order of the first additions. -/
structure Numbers (graph : FileGraph) (files : List String) (links : List (String × String)) :
    Prop where
  files_eq : graph.files = files.eraseDups
  edges_eq : graph.edges = links.eraseDups.map graph.ends
  known : ∀ link ∈ links, link.1 ∈ files ∧ link.2 ∈ files

/-- The files of the graph are the files added. -/
lemma Numbers.mem_files_iff (h : graph.Numbers files links) {file : String} :
    file ∈ graph.files ↔ file ∈ files := by
  rw [h.files_eq, List.mem_eraseDups]

/-- Two links with the same ends are the same. -/
lemma Numbers.eq_of_ends_eq (h : graph.Numbers files links) {link link' : String × String}
    (hlink : link.1 ∈ files ∧ link.2 ∈ files) (heq : graph.ends link = graph.ends link') :
    link = link' := by
  obtain ⟨hfirst, hsecond⟩ := Prod.mk.inj heq
  exact Prod.ext ((List.idxOf_inj (h.mem_files_iff.2 hlink.1)).1 hfirst)
    ((List.idxOf_inj (h.mem_files_iff.2 hlink.2)).1 hsecond)

/-- The graph has the edge of two known files just if they have been linked. -/
lemma Numbers.ends_mem_edges_iff (h : graph.Numbers files links) {link : String × String} :
    graph.ends link ∈ graph.edges ↔ link ∈ links := by
  rw [h.edges_eq, List.mem_map]
  constructor
  · rintro ⟨link', hlink', heq⟩
    have hmem : link' ∈ links := List.mem_eraseDups.1 hlink'
    exact h.eq_of_ends_eq (h.known link' hmem) heq ▸ hmem
  · intro hlink
    exact ⟨link, List.mem_eraseDups.2 hlink, rfl⟩

/-- The number that is given for an edge between known files is its rank among the links. -/
lemma Numbers.addEdge_snd (h : graph.Numbers files links) (hsource : source ∈ files)
    (htarget : target ∈ files) :
    (graph.addEdge source target).2 =
      some ((links ++ [(source, target)]).eraseDups.idxOf (source, target)) := by
  have hknown : source ∈ graph.files ∧ target ∈ graph.files :=
    ⟨h.mem_files_iff.2 hsource, h.mem_files_iff.2 htarget⟩
  by_cases hlink : (source, target) ∈ links
  · have hinj : ∀ link ∈ links.eraseDups, graph.ends link = graph.ends (source, target) →
        link = (source, target) := fun link hmem heq =>
      h.eq_of_ends_eq (h.known link (List.mem_eraseDups.1 hmem)) heq
    rw [addEdge_of_mem hknown (h.ends_mem_edges_iff.2 hlink), h.edges_eq,
      idxOf_map_of_forall hinj, idxOf_eraseDups_append hlink]
  · rw [addEdge_of_notMem hknown (mt h.ends_mem_edges_iff.1 hlink)]
    show some graph.edges.length = _
    rw [h.edges_eq, List.length_map, idxOf_eraseDups_concat hlink]

/-- Adding a file keeps the numbers. -/
lemma Numbers.addNode (h : graph.Numbers files links) (file : String) :
    (graph.addNode file).1.Numbers (files ++ [file]) links := by
  have hfiles : (graph.addNode file).1.files = (files ++ [file]).eraseDups := by
    rw [files_addNode, eraseDups_concat, ← h.files_eq]
    simp only [h.mem_files_iff]
  refine ⟨hfiles, ?_, fun link hlink => ?_⟩
  · rw [edges_addNode, h.edges_eq]
    refine List.map_congr_left fun link hlink => ?_
    obtain ⟨hfirst, hsecond⟩ := h.known link (List.mem_eraseDups.1 hlink)
    rw [ends, ends, hfiles, idxOf_eraseDups_append hfirst, idxOf_eraseDups_append hsecond,
      ← h.files_eq]
  · obtain ⟨hfirst, hsecond⟩ := h.known link hlink
    exact ⟨List.mem_append_left _ hfirst, List.mem_append_left _ hsecond⟩

/-- Adding an edge between known files keeps the numbers. -/
lemma Numbers.addEdge (h : graph.Numbers files links) (hsource : source ∈ files)
    (htarget : target ∈ files) :
    (graph.addEdge source target).1.Numbers files (links ++ [(source, target)]) := by
  have hfiles : (graph.addEdge source target).1.files = graph.files := files_addEdge graph _ _
  refine ⟨hfiles.trans h.files_eq, ?_, fun link hlink => ?_⟩
  · have hends : (graph.addEdge source target).1.ends = graph.ends :=
      funext fun link => by rw [ends, ends, hfiles]
    rw [hends, edges_addEdge ⟨h.mem_files_iff.2 hsource, h.mem_files_iff.2 htarget⟩,
      eraseDups_concat]
    simp only [h.ends_mem_edges_iff]
    split
    · exact h.edges_eq
    · rw [List.map_append, ← h.edges_eq]
      rfl
  · rcases List.mem_append.1 hlink with hlink | hlink
    · exact h.known link hlink
    · rw [List.mem_singleton.1 hlink]
      exact ⟨hsource, htarget⟩

/-- An action keeps the numbers and adds its file or link. -/
lemma Numbers.act (h : graph.Numbers files links) (action : Action) :
    (graph.act action).Numbers (files ++ action.file?.toList)
      (links ++ (action.link? files).toList) := by
  cases action with
  | addNode file =>
    have hlinks : links ++ ((Action.addNode file).link? files).toList = links := List.append_nil links
    rw [hlinks]
    exact h.addNode file
  | addEdge source target =>
    have hfiles : files ++ (Action.addEdge source target).file?.toList = files :=
      List.append_nil files
    rw [hfiles, Action.link?]
    split
    · rename_i hknown
      exact h.addEdge hknown.1 hknown.2
    · rename_i hunknown
      have hrefused : graph.act (.addEdge source target) = graph := by
        rw [FileGraph.act, addEdge_of_unknown fun hknown => hunknown
          ⟨h.mem_files_iff.1 hknown.1, h.mem_files_iff.1 hknown.2⟩]
      rw [hrefused, Option.toList_none, List.append_nil]
      exact h

/-! ## Runs -/

/-- The graph after some actions numbers the files and links that they add. -/
lemma numbers_of_run (actions : List Action) :
    (run actions).Numbers (filesOf actions) (linksOf actions) := by
  induction actions using List.reverseRecOn with
  | nil => exact ⟨rfl, rfl, fun link hlink => absurd hlink List.not_mem_nil⟩
  | append_singleton actions action ih =>
    rw [run, List.foldl_append, ← run, filesOf_concat, linksOf_concat]
    exact ih.act action

/-- The first of some actions link what the others do not change. -/
lemma linksOf_prefix {before actions : List Action} (h : before <+: actions) :
    linksOf before <+: linksOf actions := by
  obtain ⟨after, rfl⟩ := h
  exact ⟨_, (linksAfter_append [] before after).symm⟩

/-- The number that is given for a file is its rank among all that are ever added. -/
lemma addNode_snd_run {before actions : List Action} {file : String}
    (h : before ++ [.addNode file] <+: actions) :
    ((run before).addNode file).2 = (filesOf actions).eraseDups.idxOf file := by
  have hfiles : ((run before).addNode file).1.files = (filesOf before ++ [file]).eraseDups :=
    ((numbers_of_run before).addNode file).files_eq
  obtain ⟨later, hlater⟩ : filesOf before ++ [file] <+: filesOf actions := by
    have hadded : filesOf (before ++ [.addNode file]) = filesOf before ++ [file] :=
      filesOf_concat before _
    exact hadded ▸ h.filterMap Action.file?
  have hmem : file ∈ filesOf before ++ [file] := List.mem_append_right _ (List.mem_singleton_self _)
  rw [addNode_snd, hfiles, ← hlater, idxOf_eraseDups_append hmem]

/-- The number that is given for an edge between known files is the rank of its link among all that are
ever made. -/
lemma addEdge_snd_run {before actions : List Action}
    (h : before ++ [.addEdge source target] <+: actions)
    (hknown : source ∈ filesOf before ∧ target ∈ filesOf before) :
    (source, target) ∈ linksOf actions ∧ ((run before).addEdge source target).2 =
      some ((linksOf actions).eraseDups.idxOf (source, target)) := by
  have hlinked : linksOf (before ++ [.addEdge source target]) =
      linksOf before ++ [(source, target)] := by
    rw [linksOf_concat, Action.link?, if_pos hknown]
    rfl
  have hmem : (source, target) ∈ linksOf before ++ [(source, target)] :=
    List.mem_append_right _ (List.mem_singleton_self _)
  obtain ⟨later, hlater⟩ := hlinked ▸ linksOf_prefix h
  rw [(numbers_of_run before).addEdge_snd hknown.1 hknown.2, ← hlater,
    idxOf_eraseDups_append hmem later]
  exact ⟨List.mem_append_left _ hmem, rfl⟩

/-- An edge that gets a number has both its ends. -/
lemma known_of_addEdge_snd {before : List Action} {i : ℕ}
    (h : ((run before).addEdge source target).2 = some i) :
    source ∈ filesOf before ∧ target ∈ filesOf before := by
  have hfiles : ∀ file, file ∈ (run before).files ↔ file ∈ filesOf before := fun _ =>
    (numbers_of_run before).mem_files_iff
  by_contra hunknown
  rw [← hfiles, ← hfiles] at hunknown
  rw [addEdge_of_unknown hunknown] at h
  exact absurd h (Option.some_ne_none i).symm

/-- **The numbers of a run.**  Take any actions on a graph without files.  Each time a file is added, the
number given for it is its rank among the distinct files of all the actions.  An edge is refused just if
one of its ends has not been added yet, and then nothing changes.  Otherwise the number given for it is
the rank of its two ends among the distinct pairs that are ever linked, and for a pair that is new this
is the number of edges so far.  So the same number is given for two edges just if they have the same
source and the same target.  In the end there is a number for each of the distinct files and pairs. -/
theorem numbers_run (actions : List Action) :
    let files := (filesOf actions).eraseDups
    let links := (linksOf actions).eraseDups
    (∀ before file, before ++ [.addNode file] <+: actions →
      ((run before).addNode file).2 = files.idxOf file) ∧
    (∀ before source target, before ++ [.addEdge source target] <+: actions →
      let graph := run before
      (¬ (source ∈ filesOf before ∧ target ∈ filesOf before) →
        graph.addEdge source target = (graph, none)) ∧
      (source ∈ filesOf before ∧ target ∈ filesOf before →
        (graph.addEdge source target).2 = some (links.idxOf (source, target)) ∧
        ((source, target) ∉ linksOf before → links.idxOf (source, target) = graph.edgeCount))) ∧
    (∀ before source target i before' source' target' j,
      before ++ [.addEdge source target] <+: actions →
      before' ++ [.addEdge source' target'] <+: actions →
      ((run before).addEdge source target).2 = some i →
      ((run before').addEdge source' target').2 = some j →
      (i = j ↔ (source, target) = (source', target'))) ∧
    (run actions).nodeCount = files.length ∧ (run actions).edgeCount = links.length := by
  intro files links
  have hcount : ∀ actions, (run actions).edgeCount = (linksOf actions).eraseDups.length := by
    intro actions
    rw [edgeCount, (numbers_of_run actions).edges_eq, List.length_map]
  refine ⟨fun before file h => addNode_snd_run h, fun before source target h => ⟨fun hunknown => ?_,
    fun hknown => ⟨(addEdge_snd_run h hknown).2, fun hnew => ?_⟩⟩, ?_, ?_, hcount actions⟩
  · have hfiles : ∀ file, file ∈ (run before).files ↔ file ∈ filesOf before := fun _ =>
      (numbers_of_run before).mem_files_iff
    rw [← hfiles, ← hfiles] at hunknown
    exact addEdge_of_unknown hunknown
  · have hrank := (numbers_of_run before).addEdge_snd hknown.1 hknown.2
    rw [(addEdge_snd_run h hknown).2, idxOf_eraseDups_concat hnew, Option.some.injEq] at hrank
    rw [hcount]
    exact hrank
  · intro before source target i before' source' target' j h h' hi hj
    obtain ⟨hlink, hnumber⟩ := addEdge_snd_run h (known_of_addEdge_snd hi)
    obtain ⟨-, hnumber'⟩ := addEdge_snd_run h' (known_of_addEdge_snd hj)
    obtain rfl := Option.some.inj (hi.symm.trans hnumber)
    obtain rfl := Option.some.inj (hj.symm.trans hnumber')
    exact List.idxOf_inj (List.mem_eraseDups.2 hlink)
  · rw [nodeCount, (numbers_of_run actions).files_eq]

/-- An edge that is refused at first, is added once both its files are there, and once more after its
opposite and a loop. -/
def refusedFirst : List Action :=
  [.addNode "a.h", .addEdge "a.h" "b.h", .addNode "b.h", .addEdge "a.h" "b.h",
    .addEdge "b.h" "a.h", .addEdge "a.h" "a.h", .addEdge "a.h" "b.h", .addNode "a.h"]

/-- The edge gets the first number, its opposite another one. -/
theorem numbers_run_refusedFirst :
    let early := refusedFirst.take 1
    let late := refusedFirst.take 6
    early ++ [.addEdge "a.h" "b.h"] <+: refusedFirst ∧
    (run early).addEdge "a.h" "b.h" = (run early, none) ∧
    late ++ [.addEdge "a.h" "b.h"] <+: refusedFirst ∧
    ((run late).addEdge "a.h" "b.h").2 = some 0 ∧
    refusedFirst.take 7 ++ [.addNode "a.h"] <+: refusedFirst ∧
    ((run (refusedFirst.take 7)).addNode "a.h").2 = 0 ∧
    (run refusedFirst).nodeCount = 2 ∧ (run refusedFirst).edgeCount = 3 := by
  intro early late
  have hearly : early ++ [.addEdge "a.h" "b.h"] <+: refusedFirst := ⟨_, rfl⟩
  have hlate : late ++ [.addEdge "a.h" "b.h"] <+: refusedFirst := ⟨_, rfl⟩
  have hagain : refusedFirst.take 7 ++ [.addNode "a.h"] <+: refusedFirst := ⟨_, rfl⟩
  obtain ⟨hnodes, hedges, -, hfiles, hlinks⟩ := numbers_run refusedFirst
  have hrank := ((hedges late "a.h" "b.h" hlate).2 (by decide)).1
  exact ⟨hearly, (hedges early "a.h" "b.h" hearly).1 (by decide), hlate, hrank.trans (by decide),
    hagain, (hnodes _ "a.h" hagain).trans (by decide), hfiles.trans (by decide),
    hlinks.trans (by decide)⟩

end FileGraph

end CppDeps
