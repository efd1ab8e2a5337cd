import CppDeps.Proofs.Lists
import CppDeps.Proofs.Table
import CppDeps.SymbolIndex

/-!
# The definitions in an index

The index is kept up to date piecemeal: adding a file that is there already takes out the definitions
of its old symbols, under all names they use, and puts those of the new symbols at the end.  After any
number of additions the definitions of a name are those in the symbols last added for each path, the
paths in the order of their last additions (`SymbolIndex.Tracks`).  So nothing stale is left, nothing
is lost, and every place still leads to a declaration of the name.
-/

namespace CppDeps

/-- A file defines a name if one of its functions, classes or structs bears it. -/
def FileSymbols.Defines (symbols : FileSymbols) (name : String) : Prop :=
  ∃ symbol ∈ symbols.functions ++ symbols.classes ++ symbols.structs, symbol.name = name

/-- The path under which a file is known does not matter to its declarations. -/
lemma FileSymbols.symbolsOf_withFilePath (symbols : FileSymbols) (path : String) (kind : SymbolKind) :
    ({ symbols with filePath := path } : FileSymbols).symbolsOf kind = symbols.symbolsOf kind := by
  cases kind <;> rfl

namespace SymbolIndex

variable {index : SymbolIndex} {history : List (String × FileSymbols)}

/-! ## What the index should hold -/

/-- The index after files were added one after another. -/
def ofHistory (history : List (String × FileSymbols)) : SymbolIndex :=
  history.foldl (fun index added => index.addFile added.1 added.2) .empty

/-- The additions that no later addition of the same path replaced, in the order of time. -/
def latest : List (String × FileSymbols) → List (String × FileSymbols)
  | [] => []
  | added :: later =>
    if added.1 ∈ later.map Prod.fst then latest later else added :: latest later

/-- The places in a list of declarations of one kind where a name is declared, in ascending order. -/
def placesIn (path name : String) (kind : SymbolKind) (symbols : List Symbol) : List Location :=
  (symbols.zipIdx.filter fun entry => entry.1.name == name).map fun entry => ⟨path, kind, entry.2⟩

/-- The places where a file defines a name: those of its functions, then those of its classes, then
those of its structs. -/
def placesOf (name : String) (file : String × FileSymbols) : List Location :=
  placesIn file.1 name .function file.2.functions ++ placesIn file.1 name .classType file.2.classes ++
    placesIn file.1 name .structType file.2.structs

/-- An addition was not replaced if no addition of its path comes after it. -/
lemma mem_latest_iff {added : String × FileSymbols} : added ∈ latest history ↔
    ∃ before after, history = before ++ added :: after ∧ added.1 ∉ after.map Prod.fst := by
  induction history with
  | nil => simp [latest]
  | cons file later ih =>
    constructor
    · have hlater : added ∈ latest later → ∃ before after,
          file :: later = before ++ added :: after ∧ added.1 ∉ after.map Prod.fst := by
        intro hmem
        obtain ⟨before, after, rfl, hnot⟩ := ih.1 hmem
        exact ⟨file :: before, after, rfl, hnot⟩
      rw [latest]
      split
      · exact hlater
      · rename_i hfile
        rintro (_ | ⟨_, hmem⟩)
        · exact ⟨[], later, rfl, hfile⟩
        · exact hlater hmem
    · rintro ⟨before, after, hsplit, hnot⟩
      rw [latest]
      cases before with
      | nil =>
        obtain ⟨rfl, rfl⟩ := List.cons.inj hsplit
        rw [if_neg hnot]
        exact List.mem_cons_self
      | cons first before =>
        have hmem := ih.2 ⟨before, after, (List.cons.inj hsplit).2, hnot⟩
        split
        · exact hmem
        · exact List.mem_cons_of_mem file hmem

/-- One more addition comes last and replaces the earlier one of its path. -/
lemma latest_concat (history : List (String × FileSymbols)) (added : String × FileSymbols) :
    latest (history ++ [added]) =
      ((latest history).filter fun file => file.1 != added.1) ++ [added] := by
  induction history with
  | nil => rfl
  | cons file history ih =>
    rw [List.cons_append, latest, latest, ih]
    by_cases hlater : file.1 ∈ history.map Prod.fst
    · have hlater' : file.1 ∈ (history ++ [added]).map Prod.fst := by
        rw [List.map_append]
        exact List.mem_append_left _ hlater
      rw [if_pos hlater, if_pos hlater']
    · rw [if_neg hlater, List.filter_cons]
      by_cases hsame : file.1 = added.1
      · have hlater' : file.1 ∈ (history ++ [added]).map Prod.fst := by simp [hsame]
        have hout : ¬ (file.1 != added.1) = true := by simp [hsame]
        rw [if_pos hlater', if_neg hout]
      · have hlater' : file.1 ∉ (history ++ [added]).map Prod.fst := by
          rw [List.map_append, List.mem_append, not_or]
          exact ⟨hlater, fun h => hsame (List.mem_singleton.1 h)⟩
        rw [if_neg hlater', if_pos (bne_iff_ne.2 hsame), List.cons_append]

/-- Each path has one latest addition. -/
lemma nodup_latest (history : List (String × FileSymbols)) :
    ((latest history).map Prod.fst).Nodup := by
  induction history using List.reverseRecOn with
  | nil => exact List.nodup_nil
  | append_singleton history added ih =>
    rw [latest_concat, List.map_append, List.nodup_append]
    refine ⟨ih.sublist (List.filter_sublist.map Prod.fst), List.nodup_singleton added.1, ?_⟩
    rintro path hpath _ hadded rfl
    obtain ⟨file, hfile, rfl⟩ := List.mem_map.1 hpath
    exact bne_iff_ne.1 (List.mem_filter.1 hfile).2 (List.mem_singleton.1 hadded)

/-! ## Places -/

/-- A place in a list is the position of a declaration of the name. -/
lemma mem_placesIn_iff {path name : String} {kind : SymbolKind} {symbols : List Symbol}
    {location : Location} :
    location ∈ placesIn path name kind symbols ↔
      location.file = path ∧ location.kind = kind ∧
        ∃ symbol, symbols[location.position]? = some symbol ∧ symbol.name = name := by
  unfold placesIn
  rw [List.mem_map]
  constructor
  · rintro ⟨⟨symbol, position⟩, hentry, rfl⟩
    rw [List.mem_filter, List.mk_mem_zipIdx_iff_getElem?, beq_iff_eq] at hentry
    exact ⟨rfl, rfl, symbol, hentry⟩
  · rintro ⟨rfl, rfl, symbol, hsymbol⟩
    refine ⟨(symbol, location.position), ?_, rfl⟩
    rw [List.mem_filter, List.mk_mem_zipIdx_iff_getElem?, beq_iff_eq]
    exact hsymbol

/-- The places of a name in a file are the positions of its declarations as a function, class or
struct. -/
lemma mem_placesOf_iff {name : String} {file : String × FileSymbols} {location : Location} :
    location ∈ placesOf name file ↔
      location.file = file.1 ∧ location.kind ≠ .nameSpace ∧
        ∃ symbol, (file.2.symbolsOf location.kind)[location.position]? = some symbol ∧
          symbol.name = name := by
  unfold placesOf
  rw [List.mem_append, List.mem_append, mem_placesIn_iff, mem_placesIn_iff, mem_placesIn_iff]
  obtain ⟨path, kind, position⟩ := location
  cases kind <;> simp [FileSymbols.symbolsOf]

/-- No place in a list is listed twice. -/
lemma nodup_placesIn (path name : String) (kind : SymbolKind) (symbols : List Symbol) :
    (placesIn path name kind symbols).Nodup := by
  have hpositions : ((symbols.zipIdx.filter fun entry => entry.1.name == name).map Prod.snd).Nodup := by
    refine List.Nodup.sublist (List.filter_sublist.map Prod.snd) ?_
    rw [List.zipIdx_map_snd]
    exact List.nodup_range'
  have hplace : Function.Injective fun position => (⟨path, kind, position⟩ : Location) :=
    fun _ _ h => (Location.mk.inj h).2.2
  have hplaces := hpositions.map hplace
  rw [List.map_map] at hplaces
  exact hplaces

/-- No place in a file is listed twice. -/
lemma nodup_placesOf (name : String) (file : String × FileSymbols) : (placesOf name file).Nodup := by
  have hkinds : ∀ {kind kind' : SymbolKind} {symbols symbols' : List Symbol}, kind ≠ kind' →
      ∀ l ∈ placesIn file.1 name kind symbols, ∀ l' ∈ placesIn file.1 name kind' symbols',
        l ≠ l' := by
    rintro kind kind' symbols symbols' hne l hl _ hl' rfl
    exact hne ((mem_placesIn_iff.1 hl).2.1.symm.trans (mem_placesIn_iff.1 hl').2.1)
  unfold placesOf
  rw [List.nodup_append, List.nodup_append]
  refine ⟨⟨nodup_placesIn _ _ _ _, nodup_placesIn _ _ _ _, hkinds (by decide)⟩,
    nodup_placesIn _ _ _ _, fun l hl => ?_⟩
  rcases List.mem_append.1 hl with hl | hl
  · exact hkinds (by decide) l hl
  · exact hkinds (by decide) l hl

/-- The definitions of a file that bear a name are at the places of the name. -/
lemma map_snd_filter_locate (name path : String) (symbols : FileSymbols) :
    ((locate path symbols).filter fun definition => definition.1 == name).map Prod.snd =
      placesOf name (path, symbols) := by
  have hkind : ∀ kind, (((symbols.symbolsOf kind).zipIdx.map fun entry =>
      (entry.1.name, (⟨path, kind, entry.2⟩ : Location))).filter
        fun definition => definition.1 == name).map Prod.snd =
      placesIn path name kind (symbols.symbolsOf kind) := by
    intro kind
    rw [List.filter_map, List.map_map]
    rfl
  have hlocate : locate path symbols = indexedKinds.flatMap fun kind =>
      (symbols.symbolsOf kind).zipIdx.map fun entry => (entry.1.name, ⟨path, kind, entry.2⟩) := rfl
  rw [hlocate, indexedKinds, List.flatMap_cons, List.flatMap_cons, List.flatMap_cons,
    List.flatMap_nil, List.append_nil, List.filter_append, List.filter_append, List.map_append,
    List.map_append, hkind, hkind, hkind, ← List.append_assoc]
  rfl

/-! ## The table of definitions -/

/-- The places under a name in a table of definitions. -/
def placesAt (byName : Table (List Location)) (name : String) : List Location :=
  (byName.get? name).getD []

/-- Adding a place adds it under its name and nowhere else. -/
lemma placesAt_addDefinition (byName : Table (List Location)) (definition : String × Location)
    (name : String) :
    placesAt (addDefinition byName definition) name =
      if definition.1 = name then placesAt byName name ++ [definition.2]
      else placesAt byName name := by
  unfold placesAt addDefinition
  rw [Table.get?_insert]
  by_cases hname : definition.1 = name
  · rw [if_pos hname.symm, if_pos hname, hname]
    rfl
  · rw [if_neg (Ne.symm hname), if_neg hname]

/-- Adding places one after another adds under a name those that bear it. -/
lemma placesAt_foldl_addDefinition (byName : Table (List Location))
    (definitions : List (String × Location)) (name : String) :
    placesAt (definitions.foldl addDefinition byName) name =
      placesAt byName name ++
        (definitions.filter fun definition => definition.1 == name).map Prod.snd := by
  induction definitions generalizing byName with
  | nil => exact (List.append_nil _).symm
  | cons definition definitions ih =>
    rw [List.foldl_cons, ih, placesAt_addDefinition, List.filter_cons]
    by_cases hname : definition.1 = name
    · rw [if_pos hname, if_pos (beq_iff_eq.2 hname), List.map_cons, List.append_assoc]
      rfl
    · rw [if_neg hname, if_neg (mt beq_iff_eq.1 hname)]

/-- Dropping a file under a name takes out its places there and no others. -/
lemma placesAt_dropDefinition (path : String) (byName : Table (List Location)) (name name' : String) :
    placesAt (dropDefinition path byName name) name' =
      if name' = name then (placesAt byName name').filter fun location => location.file != path
      else placesAt byName name' := by
  unfold placesAt dropDefinition
  rcases hplaces : byName.get? name with _ | locations
  · by_cases hname : name' = name
    · rw [if_pos hname, hname, hplaces]
      rfl
    · rw [if_neg hname]
  · -- a name is erased when the last of its places goes, which leaves it none as well
    have hdrop : ∀ remaining : List Location,
        ((if remaining.isEmpty then byName.erase name else byName.insert name remaining).get?
          name').getD [] = if name' = name then remaining else (byName.get? name').getD [] := by
      intro remaining
      by_cases hempty : remaining.isEmpty = true
      · rw [if_pos hempty, Table.get?_erase, List.isEmpty_iff.1 hempty]
        split <;> rfl
      · rw [if_neg hempty, Table.get?_insert]
        split <;> rfl
    rw [show _ = _ from hdrop _]
    by_cases hname : name' = name
    · rw [if_pos hname, if_pos hname, hname, hplaces]
      rfl
    · rw [if_neg hname, if_neg hname]

/-- Dropping a file under several names takes out its places under these names. -/
lemma placesAt_foldl_dropDefinition (path : String) (byName : Table (List Location))
    (names : List String) (name : String) :
    placesAt (names.foldl (dropDefinition path) byName) name =
      if name ∈ names then (placesAt byName name).filter fun location => location.file != path
      else placesAt byName name := by
  induction names generalizing byName with
  | nil => exact (if_neg List.not_mem_nil).symm
  | cons first names ih =>
    rw [List.foldl_cons, ih, placesAt_dropDefinition]
    by_cases hfirst : name = first
    · have hmem : name ∈ first :: names := hfirst ▸ List.mem_cons_self
      rw [if_pos hfirst, if_pos hmem, List.filter_filter]
      simp only [Bool.and_self, ite_self]
    · simp only [if_false, List.mem_cons, hfirst, false_or]

/-! ## The invariant -/

/-- The index holds what was added last for each path, and the definitions in it. -/
structure Tracks (index : SymbolIndex) (history : List (String × FileSymbols)) : Prop where
  /-- The symbols of a file are those last added, filed under the path. -/
  file?_eq_some_iff : ∀ {path stored}, index.file? path = some stored ↔
    ∃ symbols, (path, symbols) ∈ latest history ∧ stored = { symbols with filePath := path }
  /-- The definitions of a name are those in the symbols last added. -/
  definitions_eq : ∀ name, index.definitions name = (latest history).flatMap (placesOf name)

/-- The empty index tracks the empty history. -/
lemma tracks_empty : Tracks .empty [] where
  file?_eq_some_iff := by simp [file?, empty, latest]
  definitions_eq _ := rfl

/-- Where a file defines no such name, no definition of the name lies in it. -/
lemma Tracks.filter_definitions_eq_self (h : index.Tracks history) {path name : String}
    (hnone : ∀ symbols, (path, symbols) ∈ latest history → placesOf name (path, symbols) = []) :
    (index.definitions name).filter (fun location => location.file != path) =
      index.definitions name := by
  refine List.filter_eq_self.2 fun location hlocation => bne_iff_ne.2 ?_
  rintro rfl
  rw [h.definitions_eq, List.mem_flatMap] at hlocation
  obtain ⟨⟨path, symbols⟩, hfile, hplace⟩ := hlocation
  obtain rfl : location.file = path := (mem_placesOf_iff.1 hplace).1
  rw [hnone symbols hfile] at hplace
  exact List.not_mem_nil hplace

/-- A file that is about to be replaced is dropped under every name. -/
lemma Tracks.placesAt_withoutFile (h : index.Tracks history) (path name : String) :
    placesAt (index.withoutFile path) name =
      (index.definitions name).filter fun location => location.file != path := by
  unfold withoutFile
  rcases hprevious : index.file? path with _ | previous
  · refine (h.filter_definitions_eq_self fun symbols hfile => ?_).symm
    have hsome := h.file?_eq_some_iff.2 ⟨symbols, hfile, rfl⟩
    exact absurd (hprevious.symm.trans hsome) (by simp)
  · show placesAt (((locate path previous).map Prod.fst).foldl (dropDefinition path) index.byName)
      name = _
    rw [placesAt_foldl_dropDefinition]
    split
    · rfl
    · -- the old symbols are taken out under the names they define, and are under no others
      rename_i hname
      refine (h.filter_definitions_eq_self fun symbols hfile => ?_).symm
      have hsome := h.file?_eq_some_iff.2 ⟨symbols, hfile, rfl⟩
      obtain rfl := Option.some.inj (hprevious.symm.trans hsome)
      rw [← map_snd_filter_locate, List.map_eq_nil_iff, List.filter_eq_nil_iff]
      intro definition hdefinition hbears
      exact hname (List.mem_map.2 ⟨definition, hdefinition, beq_iff_eq.1 hbears⟩)

/-- After one more addition the symbols of a file are those last added. -/
lemma Tracks.file?_addFile_eq_some_iff (h : index.Tracks history) (path : String)
    (symbols : FileSymbols) {path' : String} {stored : FileSymbols} :
    (index.addFile path symbols).file? path' = some stored ↔
      ∃ symbols', (path', symbols') ∈ latest (history ++ [(path, symbols)]) ∧
        stored = { symbols' with filePath := path' } := by
  have hfile? : (index.addFile path symbols).file? path' =
      if path' = path then some { symbols with filePath := path } else index.file? path' :=
    Table.get?_insert _ _ _ _
  simp only [hfile?, latest_concat, List.mem_append, List.mem_filter, List.mem_singleton,
    bne_iff_ne, Prod.mk.injEq]
  by_cases hpath : path' = path
  · subst hpath
    rw [if_pos rfl]
    constructor
    · intro hstored
      exact ⟨symbols, Or.inr ⟨rfl, rfl⟩, (Option.some.inj hstored).symm⟩
    · rintro ⟨symbols', ⟨-, hne⟩ | ⟨-, rfl⟩, rfl⟩
      · exact absurd rfl hne
      · rfl
  · rw [if_neg hpath, h.file?_eq_some_iff]
    constructor
    · rintro ⟨symbols', hfile, rfl⟩
      exact ⟨symbols', Or.inl ⟨hfile, hpath⟩, rfl⟩
    · rintro ⟨symbols', ⟨hfile, -⟩ | ⟨hpath', -⟩, rfl⟩
      · exact ⟨symbols', hfile, rfl⟩
      · exact absurd hpath' hpath

/-- After one more addition the definitions of a name are those in the symbols last added: the places
in the old symbols of the file are gone, and those in the new ones come last. -/
lemma Tracks.definitions_addFile (h : index.Tracks history) (path : String) (symbols : FileSymbols)
    (name : String) :
    (index.addFile path symbols).definitions name =
      (latest (history ++ [(path, symbols)])).flatMap (placesOf name) := by
  have hdefinitions : (index.addFile path symbols).definitions name =
      placesAt ((locate path symbols).foldl addDefinition (index.withoutFile path)) name := rfl
  have hothers : ((latest history).flatMap (placesOf name)).filter
        (fun location => location.file != path) =
      ((latest history).filter fun file => file.1 != path).flatMap (placesOf name) := by
    refine filter_flatMap_of_forall (fun file location hlocation => ?_) _
    rw [(mem_placesOf_iff.1 hlocation).1]
  rw [hdefinitions, placesAt_foldl_addDefinition, map_snd_filter_locate, h.placesAt_withoutFile,
    h.definitions_eq, hothers, latest_concat, List.flatMap_append, List.flatMap_singleton]

/-- **Adding a file keeps the index in step**, whether the file is new or replaces an old one. -/
lemma Tracks.addFile (h : index.Tracks history) (path : String) (symbols : FileSymbols) :
    (index.addFile path symbols).Tracks (history ++ [(path, symbols)]) where
  file?_eq_some_iff := h.file?_addFile_eq_some_iff path symbols
  definitions_eq := h.definitions_addFile path symbols

/-- After any additions the index tracks them. -/
lemma tracks_ofHistory (history : List (String × FileSymbols)) : (ofHistory history).Tracks history := by
  induction history using List.reverseRecOn with
  | nil => exact tracks_empty
  | append_singleton history added ih =>
    rw [ofHistory, List.foldl_append]
    exact ih.addFile added.1 added.2

/-- The files are those that were added, in the order of their first additions. -/
lemma filePaths_ofHistory (history : List (String × FileSymbols)) :
    (ofHistory history).filePaths = (history.map Prod.fst).eraseDups := by
  induction history using List.reverseRecOn with
  | nil => rfl
  | append_singleton history added ih =>
    have hkeys : (ofHistory (history ++ [added])).filePaths =
        if added.1 ∈ (ofHistory history).filePaths then (ofHistory history).filePaths
        else (ofHistory history).filePaths ++ [added.1] := by
      rw [ofHistory, List.foldl_append]
      exact Table.keys_insert _ _ _
    rw [hkeys, ih, List.map_append, List.map_singleton, eraseDups_concat]
    simp only [List.mem_eraseDups]

/-! ## What the definitions lead to -/

/-- The index files the symbols of each file under its path. -/
lemma Tracks.filePath_eq (h : index.Tracks history) {file : String × FileSymbols}
    (hfile : file ∈ index.files.entries) : file.2.filePath = file.1 := by
  have hfile? : index.file? file.1 = some file.2 := (Table.get?_eq_some_iff _).2 hfile
  obtain ⟨symbols, -, hstored⟩ := h.file?_eq_some_iff.1 hfile?
  rw [hstored]

/-- The definitions of a name are the places of its declarations as a function, class or struct in
the files of the index. -/
lemma Tracks.mem_definitions_iff (h : index.Tracks history) {name : String} {location : Location} :
    location ∈ index.definitions name ↔
      location.kind ≠ .nameSpace ∧ ∃ stored, index.file? location.file = some stored ∧
        ∃ symbol, (stored.symbolsOf location.kind)[location.position]? = some symbol ∧
          symbol.name = name := by
  rw [h.definitions_eq, List.mem_flatMap]
  constructor
  · rintro ⟨⟨path, symbols⟩, hfile, hplace⟩
    obtain ⟨rfl, hkind, hsymbol⟩ := mem_placesOf_iff.1 hplace
    refine ⟨hkind, _, h.file?_eq_some_iff.2 ⟨symbols, hfile, rfl⟩, ?_⟩
    rw [FileSymbols.symbolsOf_withFilePath]
    exact hsymbol
  · rintro ⟨hkind, stored, hstored, hsymbol⟩
    obtain ⟨symbols, hfile, rfl⟩ := h.file?_eq_some_iff.1 hstored
    rw [FileSymbols.symbolsOf_withFilePath] at hsymbol
    exact ⟨(location.file, symbols), hfile, mem_placesOf_iff.2 ⟨rfl, hkind, hsymbol⟩⟩

/-- No place is listed twice among the definitions of a name. -/
lemma Tracks.nodup_definitions (h : index.Tracks history) (name : String) :
    (index.definitions name).Nodup := by
  rw [h.definitions_eq, List.nodup_flatMap]
  refine ⟨fun file _ => nodup_placesOf name file, ?_⟩
  refine (List.pairwise_map.1 (nodup_latest history)).imp fun {file file'} hne => ?_
  intro location hlocation hlocation'
  exact hne ((mem_placesOf_iff.1 hlocation).1.symm.trans (mem_placesOf_iff.1 hlocation').1)

/-- Each definition of a name leads to a declaration of that name. -/
lemma Tracks.symbolAt?_of_mem_definitions (h : index.Tracks history) {name : String}
    {location : Location} (hlocation : location ∈ index.definitions name) :
    ∃ stored symbol, index.file? location.file = some stored ∧
      (stored.symbolsOf location.kind)[location.position]? = some symbol ∧
      index.symbolAt? location = some symbol ∧ symbol.name = name := by
  obtain ⟨-, stored, hstored, symbol, hsymbol, hname⟩ := h.mem_definitions_iff.1 hlocation
  refine ⟨stored, symbol, hstored, hsymbol, ?_, hname⟩
  rw [symbolAt?, hstored]
  exact hsymbol

/-- The definitions of a name lie in the files that define it. -/
lemma Tracks.mem_map_file_definitions_iff (h : index.Tracks history) {name path : String} :
    path ∈ (index.definitions name).map Location.file ↔
      ∃ stored, index.file? path = some stored ∧ stored.Defines name := by
  rw [List.mem_map]
  constructor
  · rintro ⟨location, hlocation, rfl⟩
    obtain ⟨hkind, stored, hstored, symbol, hsymbol, hname⟩ := h.mem_definitions_iff.1 hlocation
    refine ⟨stored, hstored, symbol, ?_, hname⟩
    have hmem := List.mem_of_getElem? hsymbol
    rw [List.mem_append, List.mem_append]
    rcases hlocation' : location.kind <;> rw [hlocation'] at hmem hkind
    · exact Or.inl (Or.inl hmem)
    · exact Or.inl (Or.inr hmem)
    · exact Or.inr hmem
    · exact absurd rfl hkind
  · rintro ⟨stored, hstored, symbol, hsymbol, hname⟩
    obtain ⟨kind, hkind, hmem⟩ : ∃ kind, kind ≠ .nameSpace ∧ symbol ∈ stored.symbolsOf kind := by
      rw [List.mem_append, List.mem_append] at hsymbol
      rcases hsymbol with (hsymbol | hsymbol) | hsymbol
      · exact ⟨.function, by decide, hsymbol⟩
      · exact ⟨.classType, by decide, hsymbol⟩
      · exact ⟨.structType, by decide, hsymbol⟩
    obtain ⟨position, hposition⟩ := List.mem_iff_getElem?.1 hmem
    exact ⟨⟨path, kind, position⟩,
      h.mem_definitions_iff.2 ⟨hkind, stored, hstored, symbol, hposition, hname⟩, rfl⟩

/-- Looking up the callers of a name finds a declaration for each definition. -/
lemma Tracks.resolveCallers_eq (h : index.Tracks history) (name : String) :
    (index.resolveCallers name).map (fun found => (found.1, some found.2)) =
      (index.definitions name).map fun location => (location.file, index.symbolAt? location) := by
  have hall : ∀ locations : List Location, (∀ location ∈ locations, location ∈ index.definitions name) →
      (locations.filterMap fun location =>
          (index.symbolAt? location).map fun symbol => (location.file, symbol)).map
        (fun found => (found.1, some found.2)) =
      locations.map fun location => (location.file, index.symbolAt? location) := by
    intro locations
    induction locations with
    | nil => exact fun _ => rfl
    | cons location locations ih =>
      intro hlocations
      obtain ⟨stored, symbol, -, -, hsymbol, -⟩ :=
        h.symbolAt?_of_mem_definitions (hlocations location List.mem_cons_self)
      have hrest := ih fun location hlocation => hlocations location (List.mem_cons_of_mem _ hlocation)
      rw [List.filterMap_cons, hsymbol, Option.map_some, List.map_cons, List.map_cons, hrest, hsymbol]
  exact hall _ fun _ hlocation => hlocation

/-- The callers of a name are in the files of its definitions, in the same order. -/
lemma Tracks.map_fst_resolveCallers (h : index.Tracks history) (name : String) :
    (index.resolveCallers name).map Prod.fst = (index.definitions name).map Location.file := by
  have hfiles := congrArg (List.map Prod.fst) (h.resolveCallers_eq name)
  rw [List.map_map, List.map_map] at hfiles
  exact hfiles

/-- **The definitions of a name.**  After files were added in any order, any of them any number of
times, the definitions of a name are the places of its functions, classes and structs in the symbols
last added for each path, the paths in the order of their last additions.  No place is listed twice,
each leads to a stored declaration of the name that is no namespace, and looking up the callers of the
name drops none of them.  The symbols of each path are those last added, filed under that path. -/
theorem definitions_ofHistory (history : List (String × FileSymbols)) (name : String) :
    let index := ofHistory history
    index.definitions name = (latest history).flatMap (placesOf name) ∧
    (index.definitions name).Nodup ∧
    (∀ location ∈ index.definitions name, location.kind ≠ .nameSpace ∧
      ∃ stored symbol, index.file? location.file = some stored ∧
        (stored.symbolsOf location.kind)[location.position]? = some symbol ∧
        index.symbolAt? location = some symbol ∧ symbol.name = name) ∧
    (index.resolveCallers name).map (fun found => (found.1, some found.2)) =
      (index.definitions name).map (fun location => (location.file, index.symbolAt? location)) ∧
    (∀ file ∈ latest history, index.file? file.1 = some { file.2 with filePath := file.1 }) ∧
    ∀ file ∈ index.files.entries, file.2.filePath = file.1 := by
  intro index
  have h : index.Tracks history := tracks_ofHistory history
  refine ⟨h.definitions_eq name, h.nodup_definitions name, fun location hlocation => ?_,
    h.resolveCallers_eq name, fun file hfile => ?_, fun file hfile => h.filePath_eq hfile⟩
  · exact ⟨(h.mem_definitions_iff.1 hlocation).1, h.symbolAt?_of_mem_definitions hlocation⟩
  · exact h.file?_eq_some_iff.2 ⟨file.2, hfile, rfl⟩

end SymbolIndex

end CppDeps
