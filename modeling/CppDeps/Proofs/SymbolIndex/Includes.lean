import CppDeps.IncludeResolution
import CppDeps.Proofs.Path.Reading
import CppDeps.Proofs.SymbolIndex.Definitions

/-!
# What an include path means

The index looks an include path up among the files, which keep their places when they are added again,
and in a table of basenames, where the last addition wins.  When a file is added, each strategy finds
what it found before or else that file, and so does the first of them that finds any.  After several
additions, what an include path means can be told from the paths that were added, in the order of time
(`SymbolIndex.includeTarget?`); the symbols do not matter.

Two of the strategies are weaker than they look.  Every file has its basename in the table, so the scan
for a basename finds a file only where the table does.  And a path that ends in a name keeps it when it
is seen from a directory, so that the relative path can be that of a file only where the table has the
name.  Hence the including file matters only to include paths that end in no name.
-/

namespace CppDeps

namespace SymbolIndex

variable {index : SymbolIndex} {history : List (String × FileSymbols)}

/-! ## Adding a file -/

/-- A new file comes last, and a file that is there already keeps its place. -/
lemma filePaths_addFile (index : SymbolIndex) (path : String) (symbols : FileSymbols) :
    (index.addFile path symbols).filePaths =
      if path ∈ index.filePaths then index.filePaths else index.filePaths ++ [path] :=
  Table.keys_insert _ _ _

/-- The file added last under a basename holds it. -/
lemma fileForBasename?_addFile (index : SymbolIndex) (path name : String) (symbols : FileSymbols) :
    (index.addFile path symbols).fileForBasename? name =
      if name = Path.basename path then some path else index.fileForBasename? name :=
  Table.get?_insert _ _ _ _

/-- The files of an index are the paths with symbols. -/
lemma mem_filePaths_iff (index : SymbolIndex) {path : String} :
    path ∈ index.filePaths ↔ ∃ symbols, index.file? path = some symbols := by
  rw [filePaths, Table.keys, List.mem_map]
  constructor
  · rintro ⟨file, hfile, rfl⟩
    exact ⟨file.2, (Table.get?_eq_some_iff _).2 hfile⟩
  · rintro ⟨symbols, hsymbols⟩
    exact ⟨(path, symbols), (Table.get?_eq_some_iff _).1 hsymbols, rfl⟩

/-- No file is listed twice. -/
lemma nodup_filePaths (index : SymbolIndex) : index.filePaths.Nodup :=
  index.files.nodup

/-- The keys are the paths of the files. -/
lemma fileKey?_eq (index : SymbolIndex) (path : String) :
    index.fileKey? path = if path ∈ index.filePaths then some path else none := by
  have hcontains : index.files.contains path = true ↔ path ∈ index.filePaths :=
    List.contains_iff_mem
  by_cases hkey : path ∈ index.filePaths
  · rw [fileKey?, if_pos hkey, if_pos (hcontains.2 hkey)]
  · rw [fileKey?, if_neg hkey, if_neg (mt hcontains.1 hkey)]

/-- After a file is added, a key is that of the file or was one before. -/
lemma fileKey?_addFile_eq_or (index : SymbolIndex) (path path' : String) (symbols : FileSymbols) :
    (index.addFile path symbols).fileKey? path' = index.fileKey? path' ∨
      (index.addFile path symbols).fileKey? path' = some path := by
  rw [fileKey?_eq, fileKey?_eq, filePaths_addFile]
  split
  · exact Or.inl rfl
  · by_cases hpath : path' = path
    · right
      rw [hpath, if_pos (List.mem_append_right _ List.mem_cons_self)]
    · left
      simp only [List.mem_append, List.mem_singleton, hpath, or_false]

/-- After a file is added, the table of basenames has it or what it had before. -/
lemma fileForBasename?_addFile_eq_or (index : SymbolIndex) (path name : String)
    (symbols : FileSymbols) :
    (index.addFile path symbols).fileForBasename? name = index.fileForBasename? name ∨
      (index.addFile path symbols).fileForBasename? name = some path := by
  rw [fileForBasename?_addFile]
  split
  · exact Or.inr rfl
  · exact Or.inl rfl

/-- After a file is added, a search among the files finds it or what it found before. -/
lemma find?_filePaths_addFile_eq_or (index : SymbolIndex) (path : String) (symbols : FileSymbols)
    (p : String → Bool) :
    (index.addFile path symbols).filePaths.find? p = index.filePaths.find? p ∨
      (index.addFile path symbols).filePaths.find? p = some path := by
  rw [filePaths_addFile]
  split
  · exact Or.inl rfl
  · rw [List.find?_append]
    cases index.filePaths.find? p with
    | some found => exact Or.inl rfl
    | none =>
      rw [Option.none_or, List.find?_singleton]
      split
      · exact Or.inr rfl
      · exact Or.inl rfl

/-- After a file is added, each strategy finds it or what it found before. -/
lemma includeStrategies_addFile_eq_or (index : SymbolIndex) (path : String) (symbols : FileSymbols)
    (included source : String) :
    ∀ strategy ∈ includeStrategies,
      strategy.2 (index.addFile path symbols) included source = strategy.2 index included source ∨
        strategy.2 (index.addFile path symbols) included source = some path := by
  have hkey := fun key => fileKey?_addFile_eq_or index path key symbols
  have htable := fileForBasename?_addFile_eq_or index path (Path.basename included) symbols
  have hsearch := fun p => find?_filePaths_addFile_eq_or index path symbols p
  intro strategy hstrategy
  simp only [includeStrategies, List.mem_cons, List.not_mem_nil, or_false] at hstrategy
  rcases hstrategy with rfl | rfl | rfl | rfl | rfl
  · exact hkey included
  · exact htable
  · exact hsearch _
  · exact hkey (relativeTarget included source)
  · exact hsearch _

/-- **What an include path means after a file is added**, a new one or one that is there already: what
it meant before, or else the file added.  So an include path that meant a file still does, and what it
means has not changed from one of the other files to another. -/
theorem resolveInclude_addFile (index : SymbolIndex) (path : String) (symbols : FileSymbols)
    (included source : String) :
    let before := index.resolveInclude included source
    let after := (index.addFile path symbols).resolveInclude included source
    (after = before ∨ after = some path) ∧
    (before.isSome = true → after.isSome = true) ∧
    ∀ target, after = some target → target ≠ path → before = some target := by
  intro before after
  have hor : after = before ∨ after = some path :=
    findSome?_eq_or_eq_some (includeStrategies_addFile_eq_or index path symbols included source)
  have hstill : before.isSome = true → after.isSome = true := by
    intro hbefore
    rcases hor with hsame | hnew
    · rw [hsame]
      exact hbefore
    · rw [hnew]
      rfl
  have hothers : ∀ target, after = some target → target ≠ path → before = some target := by
    intro target htarget hne
    rcases hor with hsame | hnew
    · rw [← hsame]
      exact htarget
    · have heq : target = path := Option.some.inj (htarget.symm.trans hnew)
      exact absurd heq hne
  exact ⟨hor, hstill, hothers⟩

/-! ## After several additions -/

/-- The file that an include path means, told from the paths that were added, in the order of time:
the path itself, else the path last added with its basename, else the path first added that ends with
its text, else the path to which it leads from the directory of the including file. -/
def includeTarget? (added : List String) (path source : String) : Option String :=
  (if path ∈ added then some path else none).or <|
    (added.reverse.find? fun known => Path.basename known = Path.basename path).or <|
      (added.find? fun known => path.toList <:+ known.toList).or <|
        (if relativeTarget path source ∈ added then some (relativeTarget path source) else none)

/-- The files are the paths that were added. -/
lemma mem_filePaths_ofHistory {path : String} :
    path ∈ (ofHistory history).filePaths ↔ path ∈ history.map Prod.fst := by
  rw [filePaths_ofHistory, List.mem_eraseDups]

/-- The file under a basename is the one last added with it. -/
lemma fileForBasename?_ofHistory (history : List (String × FileSymbols)) (name : String) :
    (ofHistory history).fileForBasename? name =
      (history.map Prod.fst).reverse.find? fun known => Path.basename known = name := by
  induction history using List.reverseRecOn with
  | nil => rfl
  | append_singleton history added ih =>
    have hadd : (ofHistory (history ++ [added])).fileForBasename? name =
        if name = Path.basename added.1 then some added.1
        else (ofHistory history).fileForBasename? name := by
      rw [ofHistory, List.foldl_append]
      exact fileForBasename?_addFile _ _ _ _
    rw [hadd, ih, List.map_append, List.reverse_append, List.map_singleton, List.reverse_singleton,
      List.singleton_append, List.find?_cons]
    by_cases hname : name = Path.basename added.1
    · rw [if_pos hname, decide_eq_true hname.symm]
    · rw [if_neg hname, decide_eq_false (Ne.symm hname)]

/-- The table has a basename if some file bears it. -/
lemma isSome_fileForBasename?_ofHistory {name : String} :
    ((ofHistory history).fileForBasename? name).isSome = true ↔
      ∃ known ∈ (ofHistory history).filePaths, Path.basename known = name := by
  rw [fileForBasename?_ofHistory, List.find?_isSome]
  simp only [List.mem_reverse, decide_eq_true_iff, mem_filePaths_ofHistory]

/-- The scan for a basename finds a file where the table does. -/
lemma isSome_basenameScan_ofHistory (history : List (String × FileSymbols)) (path source : String) :
    ((ofHistory history).basenameScan path source).isSome =
      ((ofHistory history).basenameMatch path source).isSome := by
  rw [Bool.eq_iff_iff, basenameMatch, isSome_fileForBasename?_ofHistory, basenameScan,
    List.find?_isSome]
  simp only [beq_iff_eq]

/-- The last strategies decide nothing, if they find a file only where the table of basenames does. -/
lemma resolveInclude_eq_take {n : ℕ} (hn : 2 ≤ n) {path source : String}
    (hlast : ∀ strategy ∈ includeStrategies.drop n, (strategy.2 index path source).isSome = true →
      (index.basenameMatch path source).isSome = true) :
    index.resolveInclude path source =
      (includeStrategies.take n).findSome? fun (_, strategy) => strategy index path source := by
  have hbasename : ("basename", basenameMatch) ∈ includeStrategies.take n :=
    List.mem_take_iff_getElem.2 ⟨1, lt_min hn (by decide), rfl⟩
  conv_lhs => rw [resolveInclude, ← List.take_append_drop n includeStrategies]
  exact findSome?_append_eq_left fun strategy hstrategy hsome =>
    ⟨_, hbasename, hlast strategy hstrategy hsome⟩

/-- The scan for a basename decides nothing. -/
lemma resolveInclude_ofHistory_eq_take_four (history : List (String × FileSymbols))
    (path source : String) :
    (ofHistory history).resolveInclude path source =
      (includeStrategies.take 4).findSome? fun (_, strategy) =>
        strategy (ofHistory history) path source := by
  refine resolveInclude_eq_take (by decide) fun strategy hstrategy hsome => ?_
  obtain rfl : strategy = ("basename-scan", basenameScan) := List.mem_singleton.1 hstrategy
  rw [← isSome_basenameScan_ofHistory]
  exact hsome

/-- What an include path means can be told from the paths that were added. -/
lemma resolveInclude_ofHistory_eq (history : List (String × FileSymbols)) (path source : String) :
    (ofHistory history).resolveInclude path source =
      includeTarget? (history.map Prod.fst) path source := by
  have hkey : ∀ path, (ofHistory history).fileKey? path =
      if path ∈ history.map Prod.fst then some path else none := by
    intro path
    simp only [fileKey?_eq, mem_filePaths_ofHistory]
  have hbasename : (ofHistory history).basenameMatch path source =
      (history.map Prod.fst).reverse.find? fun known => Path.basename known = Path.basename path :=
    fileForBasename?_ofHistory history _
  have hsuffix : (ofHistory history).suffixMatch path source =
      (history.map Prod.fst).find? fun known => path.toList <:+ known.toList := by
    rw [suffixMatch, filePaths_ofHistory, find?_eraseDups]
    simp only [← Text.endsWith_iff, Bool.decide_eq_true]
  rw [resolveInclude_ofHistory_eq_take_four, includeTarget?, ← hkey, ← hkey, ← hbasename, ← hsuffix]
  simp only [includeStrategies, List.take, findSome?_cons_eq_or, List.findSome?_nil, Option.or_none]
  rfl

/-- An include path means a known file. -/
lemma mem_filePaths_of_resolveInclude {path source target : String}
    (h : (ofHistory history).resolveInclude path source = some target) :
    target ∈ (ofHistory history).filePaths := by
  have hadded : ∀ {path'},
      (if path' ∈ history.map Prod.fst then some path' else none) = some target →
        target ∈ history.map Prod.fst := by
    intro path' hpath'
    obtain ⟨hmem, heq⟩ := Option.ite_none_right_eq_some.1 hpath'
    exact Option.some.inj heq ▸ hmem
  rw [resolveInclude_ofHistory_eq, includeTarget?] at h
  simp only [Option.or_eq_some_iff] at h
  rw [mem_filePaths_ofHistory]
  rcases h with hexact | ⟨-, hbasename | ⟨-, hsuffix | ⟨-, hrelative⟩⟩⟩
  · exact hadded hexact
  · exact List.mem_reverse.1 (List.mem_of_find?_eq_some hbasename)
  · exact List.mem_of_find?_eq_some hsuffix
  · exact hadded hrelative

/-- **What an include path means.**  After files were added in any order, any of them any number of
times, an include path means itself if it was added, else the path last added with its basename, else
the path first added that ends with its text, else the path to which it leads from the directory of the
including file if that was added, else nothing.  What it means is a known file.  The scan for a basename
finds a file only where the table of basenames does, so that the first four strategies decide. -/
theorem resolveInclude_ofHistory (history : List (String × FileSymbols)) (path source : String) :
    let index := ofHistory history
    index.resolveInclude path source = includeTarget? (history.map Prod.fst) path source ∧
    (∀ target, index.resolveInclude path source = some target → target ∈ index.filePaths) ∧
    (index.basenameScan path source).isSome = (index.basenameMatch path source).isSome ∧
    index.resolveInclude path source =
      (includeStrategies.take 4).findSome? fun (_, strategy) => strategy index path source :=
  ⟨resolveInclude_ofHistory_eq history path source, fun _ => mem_filePaths_of_resolveInclude,
    isSome_basenameScan_ofHistory history path source,
    resolveInclude_ofHistory_eq_take_four history path source⟩

/-! ## Include paths that end in a name -/

/-- A path that ends in a name keeps it as its basename when it is seen from a directory. -/
lemma basename_relativeTarget {path name : String} (hname : (Path.parse path).fileName? = some name)
    (source : String) : Path.basename (relativeTarget path source) = name := by
  refine Path.basename_render_normalize_join (fun part hpart => ?_) hname
  cases hparent : (Path.parse source).parent? with
  | none =>
    rw [hparent] at hpart
    exact Path.isPlain_of_mem_parse hpart
  | some directory =>
    rw [hparent] at hpart
    exact Path.isPlain_of_mem_parse (Path.mem_of_mem_parent? hparent hpart)

/-- Where the relative path of an include path that ends in a name is that of a file, the table has
the basename. -/
lemma isSome_basenameMatch_of_relativeMatch {path name source : String}
    (hname : (Path.parse path).fileName? = some name)
    (h : ((ofHistory history).relativeMatch path source).isSome = true) :
    ((ofHistory history).basenameMatch path source).isSome = true := by
  rw [relativeMatch, fileKey?_eq] at h
  rw [basenameMatch, isSome_fileForBasename?_ofHistory]
  refine ⟨relativeTarget path source, ?_, ?_⟩
  · by_contra hnone
    rw [if_neg hnone] at h
    exact Bool.false_ne_true h
  · rw [basename_relativeTarget hname, Path.basename_of_fileName? hname]

/-- An include path that ends in a name means what the first three strategies find. -/
lemma resolveInclude_ofHistory_eq_take_three {path name : String}
    (hname : (Path.parse path).fileName? = some name) (source : String) :
    (ofHistory history).resolveInclude path source =
      (includeStrategies.take 3).findSome? fun (_, strategy) =>
        strategy (ofHistory history) path source := by
  refine resolveInclude_eq_take (by decide) fun strategy hstrategy hsome => ?_
  have hlast : strategy ∈ [("relative", relativeMatch), ("basename-scan", basenameScan)] := hstrategy
  rcases List.mem_pair.1 hlast with rfl | rfl
  · exact isSome_basenameMatch_of_relativeMatch hname hsome
  · rw [← isSome_basenameScan_ofHistory]
    exact hsome

/-- **The including file does not matter** to what an include path means that ends in a name: where the
relative path is that of a file, the table of basenames has the name already, so that the first three
strategies decide, and none of these looks at the including file. -/
theorem resolveInclude_source_irrelevant (history : List (String × FileSymbols)) {path : String}
    (hname : (Path.parse path).fileName? ≠ none) :
    let index := ofHistory history
    (∀ source source', index.resolveInclude path source = index.resolveInclude path source') ∧
    (∀ source, (index.relativeMatch path source).isSome = true →
      (index.basenameMatch path source).isSome = true) ∧
    ∀ source, index.resolveInclude path source =
      (includeStrategies.take 3).findSome? fun (_, strategy) => strategy index path source := by
  intro index
  obtain ⟨name, hname⟩ := Option.ne_none_iff_exists'.1 hname
  have hfirst : ∀ source, index.resolveInclude path source =
      (includeStrategies.take 3).findSome? fun (_, strategy) => strategy index path source :=
    resolveInclude_ofHistory_eq_take_three hname
  have hsource : ∀ source source',
      index.resolveInclude path source = index.resolveInclude path source' := by
    intro source source'
    rw [hfirst source, hfirst source']
    rfl
  exact ⟨hsource, fun source => isSome_basenameMatch_of_relativeMatch hname, hfirst⟩

/-- A relative path that leads to one file, while its name was last added as another. -/
theorem resolveInclude_source_irrelevant_log :
    let index := ofHistory
      [("src/common/Log.h", { filePath := "" }), ("lib/Log.h", { filePath := "" })]
    (Path.parse "../common/Log.h").fileName? ≠ none ∧
    index.relativeMatch "../common/Log.h" "src/app/main.cpp" = some "src/common/Log.h" ∧
    ∀ source, index.resolveInclude "../common/Log.h" source = some "lib/Log.h" := by
  intro index
  have hname : (Path.parse "../common/Log.h").fileName? ≠ none := by decide
  have hmain : index.resolveInclude "../common/Log.h" "src/app/main.cpp" = some "lib/Log.h" := by
    decide
  refine ⟨hname, by decide, fun source => ?_⟩
  rw [← hmain]
  exact (resolveInclude_source_irrelevant _ hname).1 source "src/app/main.cpp"

end SymbolIndex

end CppDeps
