import CppDeps.Codebase
import CppDeps.Proofs.DependencyGraph.Edges
import CppDeps.Proofs.Scan.Sources
import CppDeps.Proofs.Table

/-!
# The files of an analysis

An analysis opens the files that a scan finds by the paths that the scan gives them.  Each path leads to
its source (`Disk.extractFile_foundAt`), wherever the root is and whatever its names are.  The sources are
then added to a graph under their keys, in the order of the scan, and a source takes the place of those
before it with the same key (`Disk.filesLatest_sourcesBelow`).

If the names are texts, no two sources have the same key, so the graph holds the symbols of each source
under its own key (`Disk.analyze_directory`).  Names that are no texts can be shown alike, and then it does
not (`Disk.not_nodup_brokenDisk`).
-/

namespace CppDeps

/-! ## Adding files one after another -/

namespace SymbolIndex

/-- Files that are added under different paths stand in the index in this order. -/
lemma entries_ofHistory_of_nodup {history : List (String × FileSymbols)}
    (h : (history.map Prod.fst).Nodup) : (ofHistory history).files.entries =
      history.map fun added => (added.1, { added.2 with filePath := added.1 }) := by
  induction history using List.reverseRecOn with
  | nil => rfl
  | append_singleton history added ih =>
    rw [List.map_append, List.map_singleton, List.nodup_append] at h
    obtain ⟨hnodup, -, hnew⟩ := h
    have hentries : (ofHistory (history ++ [added])).files.entries = Table.put added.1
        { added.2 with filePath := added.1 } (ofHistory history).files.entries := by
      rw [ofHistory, List.foldl_append]
      rfl
    have hkeys : ((ofHistory history).files.entries.map Prod.fst) = history.map Prod.fst := by
      rw [ih hnodup, List.map_map]
      rfl
    have hnot : added.1 ∉ (ofHistory history).files.entries.map Prod.fst := by
      rw [hkeys]
      exact fun hmem => hnew _ hmem _ (List.mem_singleton_self _) rfl
    rw [hentries, Table.put_of_notMem hnot, ih hnodup, List.map_append, List.map_singleton]

/-- What is added for a list of files and not replaced by what is added for a later one. -/
lemma mem_latest_map_iff {α : Type} {f : α → String × FileSymbols} {listed : List α}
    {added : String × FileSymbols} : added ∈ latest (listed.map f) ↔
      ∃ before file after, listed = before ++ file :: after ∧ f file = added ∧
        ∀ later ∈ after, (f later).1 ≠ added.1 := by
  rw [mem_latest_iff]
  constructor
  · rintro ⟨before, after, hsplit, hnot⟩
    obtain ⟨before, rest, rfl, rfl, hrest⟩ := List.map_eq_append_iff.1 hsplit
    obtain ⟨file, after, rfl, hfile, rfl⟩ := List.map_eq_cons_iff.1 hrest
    refine ⟨before, file, after, rfl, hfile, fun later hlater hsame => hnot ?_⟩
    rw [← hsame]
    exact List.mem_map_of_mem (List.mem_map_of_mem hlater)
  · rintro ⟨before, file, after, rfl, rfl, hnot⟩
    refine ⟨before.map f, after.map f, by rw [List.map_append, List.map_cons], ?_⟩
    rw [List.map_map]
    intro hmem
    obtain ⟨later, hlater, hsame⟩ := List.mem_map.1 hmem
    exact hnot later hlater hsame

end SymbolIndex

namespace Disk

variable {config : AnalysisConfig} {disk : Disk} {root : OsText} {canAdd : Bool}
  {entries : List (EntryName × Entry)} {way : Way} {stored : StoredFile}

/-- The symbols of a source, with its key; none at all if it cannot be read. -/
def symbolsOfSource (parser : Parser) (source : Way × StoredFile) : FileSymbols :=
  if source.2.canRead then
    Extraction.extractSource source.1.key (parser source.2.content) source.2.content
  else { filePath := source.1.key }

/-- The symbols of a source are filed under its key. -/
lemma filePath_symbolsOfSource (parser : Parser) (source : Way × StoredFile) :
    (symbolsOfSource parser source).filePath = source.1.key := by
  unfold symbolsOfSource
  split <;> rfl

/-- Filing the symbols of a source under its key leaves them as they are. -/
lemma withFilePath_symbolsOfSource (parser : Parser) (source : Way × StoredFile) :
    { symbolsOfSource parser source with filePath := source.1.key } = symbolsOfSource parser source := by
  rw [← filePath_symbolsOfSource parser source]

/-- The path that a scan gives a source leads to it. -/
lemma extractFile_foundAt (parser : Parser) (hroot : disk.open? root = .ok (.folder canAdd entries))
    (h : IsSource config (.folder canAdd entries) way stored) :
    disk.extractFile parser (foundAt root way) = symbolsOfSource parser (way, stored) := by
  have hopen : disk.open? (root.join way.path) = .ok (.file stored) :=
    open?_join hroot h.ne_nil h.file (by simp)
  rw [extractFile, symbolsOf, foundAt, read_of_open? hopen, symbolsOfSource]
  cases stored.canRead <;> rfl

/-- What is extracted from the files that a scan of a folder finds are the symbols of the sources below
it. -/
lemma map_extractFile_scan (parser : Parser) (config : AnalysisConfig)
    (hfolder : (Entry.folder canAdd entries).Ordered)
    (hroot : disk.open? root = .ok (.folder canAdd entries)) :
    (disk.scan config root).map (disk.extractFile parser) =
      (sourcesBelow config (.folder canAdd entries)).map (symbolsOfSource parser) := by
  rw [scan_of_open? hroot, List.map_map]
  refine List.map_congr_left fun source hsource => ?_
  exact extractFile_foundAt parser hroot ((mem_sourcesBelow_iff hfolder).1 hsource)

/-- A source is one of the files. -/
lemma IsSource.mem_files {directory : Way} {folder : Entry} (hdirectory : disk.at? directory = some folder)
    (h : IsSource config folder way stored) : (directory ++ way, stored) ∈ disk.files := by
  refine (mem_filesOf_iff disk.ordered).2 ⟨?_, fun _ _ => rfl⟩
  exact (at?_append hdirectory way).trans h.file

/-- What a scan of a folder finds is given by a list of the sources below the folder. -/
structure FindsSources (disk : Disk) (config : AnalysisConfig) (root : OsText) (folder : Entry)
    (sources : List (Way × StoredFile)) : Prop where
  /-- The list has the sources below the folder and nothing else. -/
  mem_iff : ∀ way stored, (way, stored) ∈ sources ↔ IsSource config folder way stored
  /-- The ways to the sources ascend, name by name. -/
  ascending : sources.Pairwise fun source source' => source.1 < source'.1
  /-- The scan finds each source once.  Its key is what is shown of the names on its way with slashes
  between them, and its path is the root joined with these names. -/
  scan_eq : disk.scan config root = sources.map fun source =>
    ⟨source.1.key, root.join source.1.path⟩

/-- An analysis files the sources under their keys, and of sources with the same key the last one. -/
structure FilesLatest (disk : Disk) (config : AnalysisConfig) (root : OsText)
    (sources : List (Way × StoredFile)) : Prop where
  /-- The analysis has the keys of the sources, each once, in the order of the scan. -/
  keys_eq : ∀ parser, (disk.analyze parser config root).files.map Prod.fst =
    (sources.map fun source => source.1.key).eraseDups
  /-- Under a key it has the symbols of the last source with this key. -/
  mem_files_iff : ∀ parser key symbols, (key, symbols) ∈ (disk.analyze parser config root).files ↔
    ∃ before source after, sources = before ++ source :: after ∧ source.1.key = key ∧
      (∀ later ∈ after, later.1.key ≠ key) ∧ symbols = symbolsOfSource parser source

/-- A scan gives each source a key of its own, and an analysis files the sources under their keys. -/
structure FilesSources (disk : Disk) (config : AnalysisConfig) (root : OsText)
    (sources : List (Way × StoredFile)) : Prop where
  /-- No two sources have the same key. -/
  nodup : ((disk.scan config root).map FoundFile.key).Nodup
  /-- The keys ascend, compared name by name and names by their bytes. -/
  ascending : ((disk.scan config root).map FoundFile.key).Pairwise
    fun key key' => Path.byteNames key < Path.byteNames key'
  /-- The path of a source is the root joined with its key. -/
  path_eq : ∀ found ∈ disk.scan config root, found.path = root.join (Text.bytes found.key)
  /-- The analysis has the symbols of each source under its key, in the same order. -/
  files_eq : ∀ parser, (disk.analyze parser config root).files = sources.map fun source =>
    (source.1.key, symbolsOfSource parser source)

/-- An analysis adds what it extracts from the files that a scan finds, one file after another. -/
lemma index_analyze (disk : Disk) (parser : Parser) (config : AnalysisConfig) (root : OsText) :
    (disk.analyze parser config root).index = SymbolIndex.ofHistory
      (((disk.scan config root).map (disk.extractFile parser)).map fun symbols =>
        (symbols.filePath, symbols)) := by
  have hrun : disk.analyze parser config root = DependencyGraph.run
      (((disk.scan config root).map (disk.extractFile parser)).map
        (fun symbols => .addFile symbols.filePath symbols) ++ [.analyze]) := by
    rw [DependencyGraph.run, List.foldl_append, List.foldl_map]
    rfl
  have hadded : (DependencyGraph.Action.added? ∘ fun symbols : FileSymbols =>
      .addFile symbols.filePath symbols) = some ∘ fun symbols => (symbols.filePath, symbols) := rfl
  rw [hrun, DependencyGraph.index_run, List.filterMap_append, List.filterMap_map, hadded,
    List.filterMap_eq_map]
  exact congrArg SymbolIndex.ofHistory (List.append_nil _)

/-- An analysis of a folder adds the symbols of the sources below it, each under its key. -/
lemma index_analyze_directory (parser : Parser) (config : AnalysisConfig)
    (hfolder : (Entry.folder canAdd entries).Ordered)
    (hroot : disk.open? root = .ok (.folder canAdd entries)) :
    (disk.analyze parser config root).index = SymbolIndex.ofHistory
      ((sourcesBelow config (.folder canAdd entries)).map fun source =>
        (source.1.key, symbolsOfSource parser source)) := by
  rw [index_analyze, map_extractFile_scan parser config hfolder hroot, List.map_map]
  refine congrArg SymbolIndex.ofHistory (List.map_congr_left fun source _ => ?_)
  rw [Function.comp_apply, filePath_symbolsOfSource]

/-- **The sources are filed under their keys**, and of sources with the same key the last one, whatever
their names are. -/
lemma filesLatest_sourcesBelow (hfolder : (Entry.folder canAdd entries).Ordered)
    (hroot : disk.open? root = .ok (.folder canAdd entries)) :
    disk.FilesLatest config root (sourcesBelow config (.folder canAdd entries)) := by
  constructor
  · intro parser
    have hkeys := SymbolIndex.filePaths_ofHistory
      ((sourcesBelow config (.folder canAdd entries)).map fun source =>
        (source.1.key, symbolsOfSource parser source))
    rw [← index_analyze_directory parser config hfolder hroot, List.map_map] at hkeys
    exact hkeys
  · intro parser key symbols
    have hfile : (key, symbols) ∈ (disk.analyze parser config root).files ↔
        (disk.analyze parser config root).index.file? key = some symbols :=
      (Table.get?_eq_some_iff _).symm
    rw [hfile, index_analyze_directory parser config hfolder hroot,
      (SymbolIndex.tracks_ofHistory _).file?_eq_some_iff]
    simp only [SymbolIndex.mem_latest_map_iff, Prod.mk.injEq]
    constructor
    · rintro ⟨_, ⟨before, source, after, hsplit, ⟨rfl, rfl⟩, hlast⟩, rfl⟩
      exact ⟨before, source, after, hsplit, rfl, hlast, withFilePath_symbolsOfSource parser source⟩
    · rintro ⟨before, source, after, hsplit, rfl, hlast, rfl⟩
      exact ⟨_, ⟨before, source, after, hsplit, ⟨rfl, rfl⟩, hlast⟩,
        (withFilePath_symbolsOfSource parser source).symm⟩

/-- If the names of the sources are texts, the sources have keys of their own and are filed under them. -/
lemma filesSources_sourcesBelow (hfolder : (Entry.folder canAdd entries).Ordered)
    (hroot : disk.open? root = .ok (.folder canAdd entries))
    (htext : ∀ source ∈ sourcesBelow config (.folder canAdd entries), source.1.IsText) :
    disk.FilesSources config root (sourcesBelow config (.folder canAdd entries)) := by
  have hscan : disk.scan config root =
      (sourcesBelow config (.folder canAdd entries)).map fun source => foundAt root source.1 :=
    scan_of_open? hroot
  have hkeys : (disk.scan config root).map FoundFile.key =
      (sourcesBelow config (.folder canAdd entries)).map fun source => source.1.key := by
    rw [hscan, List.map_map]
    rfl
  have hascending : ((disk.scan config root).map FoundFile.key).Pairwise
      fun key key' => Path.byteNames key < Path.byteNames key' := by
    rw [hkeys]
    exact pairwise_keys hfolder htext
  have hnodup : ((disk.scan config root).map FoundFile.key).Nodup := by
    refine hascending.imp ?_
    rintro key _ hlt rfl
    exact List.lt_irrefl _ hlt
  refine ⟨hnodup, hascending, ?_, fun parser => ?_⟩
  · intro found hfound
    rw [hscan] at hfound
    obtain ⟨source, hsource, rfl⟩ := List.mem_map.1 hfound
    exact congrArg (OsText.join root) (Way.path_eq_bytes_key (htext source hsource))
  · rw [hkeys] at hnodup
    rw [DependencyGraph.files, index_analyze_directory parser config hfolder hroot,
      SymbolIndex.entries_ofHistory_of_nodup (by rw [List.map_map]; exact hnodup), List.map_map]
    refine List.map_congr_left fun source _ => ?_
    exact congrArg (Prod.mk source.1.key) (withFilePath_symbolsOfSource parser source)

/-- The file system with a folder `a` next to a file `a-b.h`, a folder with an excluded name, a file that
is no source, one that cannot be read, a link to a source and a socket; the working directory is another
folder. -/
def nestedDisk : Disk :=
  let disk := ofFiles (Way.ofPath (Text.bytes "/w/out"))
    [(Text.bytes "../src/a-b.h", { content := .empty }),
      (Text.bytes "../src/a/x.h", { content := .empty }),
      (Text.bytes "../src/build/gen.h", { content := .empty }),
      (Text.bytes "../src/notes.txt", { content := .empty }),
      (Text.bytes "../src/secret.h", { content := .empty, canRead := false })] []
  let disk := disk.put (Way.ofPath (Text.bytes "/w/src/link.h")) (.link (Text.bytes "a/x.h"))
    (Entry.ordered_of_entries_eq_nil rfl)
  disk.put (Way.ofPath (Text.bytes "/w/src/socket.h")) .special (Entry.ordered_of_entries_eq_nil rfl)

/-- A parser that finds nothing in any file. -/
def blankParser : Parser := fun source =>
  .node { kind := "translation_unit", endByte := source.size, startLine := 1, endLine := 1 } []

/-- The file system with two sources whose names are no texts. -/
def brokenDisk : Disk :=
  ofFiles [] [([0x78, 0xfe, 0x2e, 0x68], { content := .empty }),
    ([0x78, 0xff, 0x2e, 0x68], { content := .empty })] []

/-- Both sources are found, under the same key, and one of them takes the place of the other. -/
theorem not_nodup_brokenDisk :
    ¬ ((brokenDisk.scan {} (Text.bytes ".")).map FoundFile.key).Nodup ∧
      (brokenDisk.analyze blankParser {} (Text.bytes ".")).files.map Prod.fst = ["x\uFFFD.h"] := by
  decide +kernel

end Disk

end CppDeps
