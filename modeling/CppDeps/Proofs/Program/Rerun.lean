import CppDeps.Program
import CppDeps.Proofs.Codebase.Files
import CppDeps.Proofs.Disk.Writing

/-!
# Running the program again

A run on a directory writes its document into that directory, so the next run meets one file more.  That
file is none of the sources if no configured extension is `json`, and it is not the settings file, so the
settings, the files that are found and all that is computed from them stay the same, and the document is
written again as it is, or as far as there is room for it.  Hence the second run ends as the first one
did, well or with the same failure, and nothing but the document has changed (`Program.run_rerun`).
-/

namespace CppDeps

namespace Disk

variable {disk disk' : Disk} {root : OsText} {document : EntryName} {directory way : Way}
  {stored : StoredFile} {config : AnalysisConfig}

/-! ## Readers and the file that was written -/

/-- A path leads to a file if opening it gives one. -/
lemma isFile_iff {path : OsText} :
    disk.isFile path = true ↔ ∃ stored, disk.open? path = .ok (.file stored) := by
  unfold isFile
  split
  · rename_i held hopen
    exact iff_of_true rfl ⟨held, hopen⟩
  · rename_i hopen
    exact iff_of_false Bool.false_ne_true fun ⟨held, hheld⟩ => hopen held hheld

/-- An empty path cannot be opened. -/
lemma open?_nil (disk : Disk) : disk.open? [] = .error .notFound :=
  rfl

/-- A path next to which names are looked up is not that of a file. -/
lemma Anchors.isFile_eq_false (h : disk.Anchors root directory) : disk.isFile root = false := by
  rw [Bool.eq_false_iff]
  intro hfile
  obtain ⟨stored, hopen⟩ := isFile_iff.1 hfile
  obtain ⟨way, hresolve, hstored⟩ := open?_eq_ok_iff.1 hopen
  obtain ⟨-, hleads⟩ := resolve_eq_ok_iff.1 hresolve
  obtain ⟨⟨canAdd, entries, hentries⟩, left, hroot⟩ := h
  obtain ⟨left', hleads⟩ := hleads
  obtain ⟨rfl, -⟩ := hroot.unique hleads
  rw [hentries] at hstored
  exact absurd (Option.some.inj hstored) (by simp)

/-- The name of another file stands for a link after a file was written if it did so before. -/
lemma Anchors.isLink_join_congr (h : disk.Anchors root directory)
    (hsame : SameOff (directory ++ [document]) disk disk') (name : EntryName) :
    disk'.isLink (root.join name.bytes) = disk.isLink (root.join name.bytes) := by
  rw [Bool.eq_iff_iff, (h.of_sameOff hsame).isLink_join_iff name, h.isLink_join_iff name]
  exact exists_congr fun target => hsame.link_iff

/-- The settings next to a path are the same after a file of another name was written there. -/
lemma Anchors.load_congr (h : disk.Anchors root directory)
    (hsame : SameOff (directory ++ [document]) disk disk') (name : EntryName) (hname : name ≠ document)
    (hlink : disk.isLink (root.join name.bytes) = false)
    (hsettings : name.bytes = Text.bytes configFileName) :
    AnalysisConfig.load disk' root = AnalysisConfig.load disk root := by
  have hlink' : disk'.isLink (root.join name.bytes) = false :=
    (h.isLink_join_congr hsame name).trans hlink
  have hway : directory ++ [name] ≠ directory ++ [document] := fun heq =>
    hname (List.singleton_inj.1 (List.append_cancel_left heq))
  have hopen : ∀ stored, disk'.open? (root.join name.bytes) = .ok (.file stored) ↔
      disk.open? (root.join name.bytes) = .ok (.file stored) := by
    intro stored
    rw [open?_join_name_iff hlink', open?_join_name_iff hlink]
    constructor
    · rintro ⟨other, hother, hstored⟩
      obtain rfl := (h.of_sameOff hsame).unique hother
      exact ⟨directory, h, (hsame.file_iff hway).1 hstored⟩
    · rintro ⟨other, hother, hstored⟩
      obtain rfl := h.unique hother
      exact ⟨directory, h.of_sameOff hsame, (hsame.file_iff hway).2 hstored⟩
  unfold AnalysisConfig.load
  rw [← hsettings]
  dsimp only
  by_cases hfile : disk.isFile (root.join name.bytes) = true
  · obtain ⟨stored, hstored⟩ := isFile_iff.1 hfile
    have hstored' := (hopen stored).2 hstored
    rw [if_pos hfile, if_pos (isFile_iff.2 ⟨stored, hstored'⟩), AnalysisConfig.fromFile,
      AnalysisConfig.fromFile, readText, readText, read_of_open? hstored, read_of_open? hstored']
  · have hfile' : ¬ disk'.isFile (root.join name.bytes) = true := fun hfile' =>
      hfile (isFile_iff.2 ((isFile_iff.1 hfile').imp fun stored => (hopen stored).1))
    rw [if_neg hfile, if_neg hfile']

/-- A file whose name has no configured extension does not count among the sources. -/
lemma SameOff.isSource_iff {folder folder' : Entry}
    (hsame : SameOff (directory ++ [document]) disk disk')
    (hname : config.supports document.bytes = false) (hfolder : disk.at? directory = some folder)
    (hfolder' : disk'.at? directory = some folder') :
    IsSource config folder' way stored ↔ IsSource config folder way stored := by
  have hfile : ∀ {folder : Entry}, IsSource config folder way stored →
      (folder'.below? way = some (.file stored) ↔ disk.at? (directory ++ way) = some (.file stored)) := by
    intro folder hsource
    rw [← at?_append hfolder', hsame.file_iff]
    intro heq
    obtain ⟨last, hlast, hsupported⟩ := hsource.supported
    rw [List.append_cancel_left heq] at hlast
    obtain rfl : document = last := Option.some.inj hlast
    rw [AnalysisConfig.supports_iff.2 hsupported] at hname
    exact absurd hname (by simp)
  rw [at?_append hfolder] at hfile
  constructor
  · exact fun hsource => ⟨(hfile hsource).1 hsource.file, hsource.included, hsource.supported⟩
  · exact fun hsource => ⟨(hfile hsource).2 hsource.file, hsource.included, hsource.supported⟩

/-- What is extracted is the same after a file was written that is no source. -/
lemma Anchors.map_extractFile_congr (h : disk.Anchors root directory)
    (hsame : SameOff (directory ++ [document]) disk disk')
    (hname : config.supports document.bytes = false) (parser : Parser) :
    (disk'.scan config root).map (disk'.extractFile parser) =
      (disk.scan config root).map (disk.extractFile parser) := by
  by_cases hroot : root = []
  · subst hroot
    rw [scan, scan, open?_nil, open?_nil]
    rfl
  · have h' := h.of_sameOff hsame
    obtain ⟨canAdd, entries, hentries⟩ := h.1
    obtain ⟨canAdd', entries', hentries'⟩ := h'.1
    have hopen := open?_eq_ok_iff.2 ⟨directory, h.resolve hroot, hentries⟩
    have hopen' := open?_eq_ok_iff.2 ⟨directory, h'.resolve hroot, hentries'⟩
    rw [map_extractFile_scan parser config (ordered_of_at? hentries) hopen,
      map_extractFile_scan parser config (ordered_of_at? hentries') hopen']
    exact congrArg _ (sourcesBelow_congr (ordered_of_at? hentries') (ordered_of_at? hentries)
      fun way stored => hsame.isSource_iff hname hentries hentries')

end Disk

namespace Program

open Disk

variable {disk : Disk} {parser : Parser} {words : List OsText} {line : CommandLine}

/-! ## Two runs -/

/-- The path of the settings file of an input. -/
def settingsPath (line : CommandLine) : OsText :=
  line.input.join (Text.bytes configFileName)

/-- The usual path of the document on an input. -/
def documentPath (line : CommandLine) : OsText :=
  line.input.join (Text.bytes defaultOutputName)

/-- A run on a directory that leaves its document there, under a name whose extension is not
configured. -/
structure ExportsBesideSources (disk : Disk) (line : CommandLine) : Prop where
  /-- The input is not a file. -/
  directory : disk.isFile line.input = false
  /-- The document has its usual place. -/
  output : line.output = none
  /-- The settings are those of the directory. -/
  config : line.config = none
  /-- No configured extension is that of the document, whatever its case and the dots in front of it. -/
  extensions : ∀ config, settings disk line = .ok config →
    ∀ extension ∈ config.extensions, (AnalysisConfig.withoutDots extension).toLower ≠ "json"
  /-- The settings file is no link, which might lead to the document. -/
  isLink_settingsPath : disk.isLink (settingsPath line) = false
  /-- The document is no link, which might lead to another file. -/
  isLink_documentPath : disk.isLink (documentPath line) = false

/-- The name of the settings file. -/
def settingsName : EntryName :=
  ⟨Text.bytes configFileName, by decide +kernel⟩

/-- The name of the document. -/
def documentName : EntryName :=
  ⟨Text.bytes defaultOutputName, by decide +kernel⟩

/-- The document is no source if its extension is not configured. -/
lemma supports_documentName {config : AnalysisConfig}
    (h : ∀ extension ∈ config.extensions, (AnalysisConfig.withoutDots extension).toLower ≠ "json") :
    config.supports documentName.bytes = false := by
  rw [Bool.eq_false_iff]
  intro hsupports
  obtain ⟨extension, hextension, configured, hconfigured, hsame⟩ :=
    AnalysisConfig.supports_iff.1 hsupports
  have hread : documentName.bytes.extension?.bind OsText.toText? = some "json" := by decide +kernel
  have hjson : some extension = some "json" :=
    (OsText.bind_extension?_eq_some_iff.2 hextension).symm.trans hread
  have hlower : "json".toLower = "json" := by decide +kernel
  rw [Option.some.inj hjson, hlower] at hsame
  exact h configured hconfigured hsame

/-- The settings of a run that names no settings file are those of its directory. -/
lemma settings_eq (hfile : disk.isFile line.input = false) (hconfig : line.config = none) :
    settings disk line = .ok (override (AnalysisConfig.load disk line.input) line) := by
  rw [settings, hconfig, settingsDirectory, hfile]
  rfl

/-- The bytes of the document on a graph. -/
def documentBytes (config : AnalysisConfig) (graph : DependencyGraph) : ByteArray :=
  (documentText true (graph.exportWithCycles (graph.findCycles config.cycles))).toUTF8

/-- The report on a graph. -/
def reportOn (config : AnalysisConfig) (output : OsText) (graph : DependencyGraph) : List String :=
  Report.ofGraph graph (graph.findCycles config.cycles)
    (graph.exportWithCycles (graph.findCycles config.cycles)).metadata config.topCoupled output.lossy

/-- A run on a directory ends well if its document could be written. -/
lemma runDirectory_eq (disk : Disk) (parser : Parser) (config : AnalysisConfig) (root output : OsText) :
    runDirectory disk parser config root output =
      let graph := disk.analyze parser config root
      let written := disk.write output (documentBytes config graph)
      ⟨match written.2 with
        | some fault => .error (.unwritable output fault)
        | none => .ok (reportOn config output graph), written.1⟩ := by
  unfold runDirectory writeExport documentBytes reportOn
  dsimp only
  generalize disk.write output _ = written
  obtain ⟨after, fault⟩ := written
  cases fault <;> rfl

/-- A run on a directory analyses it and writes the document next to it. -/
lemma runLine_eq (hfile : disk.isFile line.input = false) (houtput : line.output = none)
    (hconfig : line.config = none) :
    runLine disk parser line =
      runDirectory disk parser (override (AnalysisConfig.load disk line.input) line) line.input
        (documentPath line) := by
  rw [runLine, settings_eq hfile hconfig, hfile, houtput]
  rfl

/-- **A run can be repeated.**  It changes nothing, or only what is seen where the document is; then it
ends in the same way when it is repeated. -/
lemma ExportsBesideSources.runLine_cases (h : ExportsBesideSources disk line) (parser : Parser) :
    (runLine disk parser line).disk = disk ∨
      ∃ place, SameOff place disk (runLine disk parser line).disk ∧
        (runLine disk parser line).disk.resolve false (documentPath line) = .ok place ∧
          runLine (runLine disk parser line).disk parser line = runLine disk parser line := by
  have hpath : documentPath line = line.input.join documentName.bytes := rfl
  have hrun : runLine disk parser line = _ := runLine_eq h.directory h.output h.config
  have hsupported := supports_documentName (h.extensions _ (settings_eq h.directory h.config))
  rw [runDirectory_eq, hpath] at hrun
  generalize hconfig : override (AnalysisConfig.load disk line.input) line = config at hrun hsupported
  have hdisk := congrArg Outcome.disk hrun
  dsimp only at hdisk
  rw [hdisk, hpath]
  refine (write_join_cases h.isLink_documentPath _).imp_right ?_
  generalize hwritten : disk.write (line.input.join documentName.bytes) _ = written at hrun
  rintro ⟨directory, hanchors, hsame, hresolve, hagain⟩
  refine ⟨directory ++ [documentName], hsame, hresolve, ?_⟩
  have hload := hanchors.load_congr hsame settingsName (by decide +kernel) h.isLink_settingsPath rfl
  have hextracted := hanchors.map_extractFile_congr hsame hsupported parser
  have hfile := (hanchors.of_sameOff hsame).isFile_eq_false
  have hanalyze : written.1.analyze parser config line.input = disk.analyze parser config line.input := by
    rw [analyze, hextracted, ← analyze]
  rw [runLine_eq hfile h.output h.config, hload, hconfig, runDirectory_eq, hpath, hanalyze, hrun]
  dsimp only
  rw [hagain, hwritten]

/-- **Running the program twice.**  A run whose document is no source ends in the same way when it is
repeated in the file system that it left: with the same failure or the same report, and with the same files,
among them the document.  After both runs every file but the document is what it was before them. -/
theorem run_rerun (parser : Parser) (words : List OsText)
    (h : ∀ line, CommandLine.parse words = .ok line → ExportsBesideSources disk line) :
    run (run disk parser words).disk parser words = run disk parser words ∧
      ∀ way,
        (∀ line, CommandLine.parse words = .ok line →
          (run disk parser words).disk.resolve false (documentPath line) ≠ .ok way) →
        ∀ stored, (run disk parser words).disk.at? way = some (.file stored) ↔
          disk.at? way = some (.file stored) := by
  cases hparse : CommandLine.parse words with
  | error error =>
    have hrun : run disk parser words = ⟨.error (.usage error), disk⟩ := by rw [run, hparse]
    rw [hrun]
    exact ⟨hrun, fun _ _ _ => Iff.rfl⟩
  | ok line =>
    have hrun : ∀ disk, run disk parser words = runLine disk parser line := by
      intro disk
      rw [run, hparse]
    rw [hrun, hrun]
    rcases (h line hparse).runLine_cases parser with hunchanged | ⟨place, hsame, hresolve, hagain⟩
    · rw [hunchanged]
      exact ⟨rfl, fun _ _ _ => Iff.rfl⟩
    · refine ⟨hagain, fun way hway stored => hsame.file_iff ?_⟩
      rintro rfl
      exact hway line rfl hresolve

/-- The file system with one source and a settings file in a folder next to the working directory, and with
a bound on files. -/
def settledDisk (largest : Option Nat) : Disk :=
  let disk := ofFiles (Way.ofPath (Text.bytes "/w/out"))
    [(Text.bytes "../src/a.h", { content := .empty }),
      (Text.bytes "../src/cppgraph.toml", { content := "extensions = [\".h\"]".toUTF8 })] []
  { disk with largest }

/-- The words that ask for an analysis of that folder. -/
def settledWords : List OsText :=
  [Text.bytes "-i", Text.bytes "../src"]

/-- Their meaning. -/
def settledLine : CommandLine :=
  { input := Text.bytes "../src" }

/-- The words are read as they are meant. -/
lemma parse_settledWords : CommandLine.parse settledWords = .ok settledLine :=
  rfl

/-- A run on the folder with the settings file leaves its document beside the source, or a part of it. -/
lemma exportsBesideSources_settledDisk {largest : Option Nat} (h : largest = none ∨ largest = some 4) :
    ExportsBesideSources (settledDisk largest) settledLine := by
  have hload : AnalysisConfig.load (settledDisk largest) settledLine.input = { extensions := [".h"] } := by
    rcases h with rfl | rfl <;> decide +kernel
  have hfile : (settledDisk largest).isFile settledLine.input = false := by
    rcases h with rfl | rfl <;> decide +kernel
  refine ⟨hfile, rfl, rfl, fun config hconfig => ?_, ?_, ?_⟩
  · rw [settings_eq hfile rfl, hload] at hconfig
    obtain rfl := Except.ok.inj hconfig
    intro extension hextension
    obtain rfl : extension = ".h" := List.mem_singleton.1 hextension
    decide +kernel
  · rcases h with rfl | rfl <;> decide +kernel
  · rcases h with rfl | rfl <;> decide +kernel

/-- A first run reports on the one source, and so does a second one.  If files are bounded, both fail and
leave the same part of the document. -/
theorem run_rerun_settled :
    ((run (settledDisk none) blankParser settledWords).result.toOption.map List.head? =
        some (some "Analyzed 1 files") ∧
      run (run (settledDisk none) blankParser settledWords).disk blankParser settledWords =
        run (settledDisk none) blankParser settledWords ∧
      ((run (settledDisk none) blankParser settledWords).disk.at?
          (Way.ofPath (Text.bytes "w/src/a.h")) = some (.file { content := .empty }) ↔
        (settledDisk none).at? (Way.ofPath (Text.bytes "w/src/a.h")) =
          some (.file { content := .empty }))) ∧
    (run (settledDisk (some 4)) blankParser settledWords).result.toOption = none ∧
      ((run (settledDisk (some 4)) blankParser settledWords).disk.read
        (Text.bytes "../src/dependency_graph.json")).toOption.map ByteArray.size = some 4 ∧
      run (run (settledDisk (some 4)) blankParser settledWords).disk blankParser settledWords =
        run (settledDisk (some 4)) blankParser settledWords := by
  have hexports : ∀ {largest}, largest = none ∨ largest = some 4 →
      ∀ line, CommandLine.parse settledWords = .ok line →
        ExportsBesideSources (settledDisk largest) line := by
    intro largest hlargest line hline
    obtain rfl := Except.ok.inj (parse_settledWords.symm.trans hline)
    exact exportsBesideSources_settledDisk hlargest
  have hway : ∀ line, CommandLine.parse settledWords = .ok line →
      (run (settledDisk none) blankParser settledWords).disk.resolve false (documentPath line) ≠
        .ok (Way.ofPath (Text.bytes "w/src/a.h")) := by
    intro line hline
    obtain rfl := Except.ok.inj (parse_settledWords.symm.trans hline)
    decide +kernel
  obtain ⟨hagain, hsame⟩ := run_rerun blankParser settledWords (hexports (Or.inl rfl))
  obtain ⟨hagain', -⟩ := run_rerun blankParser settledWords (hexports (Or.inr rfl))
  exact ⟨⟨by decide +kernel, hagain, hsame _ hway _⟩, by decide +kernel, by decide +kernel, hagain'⟩

end Program

end CppDeps
