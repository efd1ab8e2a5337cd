import CppDeps.FileType
import CppDeps.Proofs.Scan.Sources

/-!
# The types of the files that a scan finds

The default extensions are those of headers and sources, so a file found under the default settings
should be of one of these two types.  A scan takes an extension for the same whatever its case, though,
while the type of a file is told from its path as written.  Thus the type follows the extension exactly
for the files whose extension is in lower case (`Disk.classify_of_mem_scan`); a file `Socket.H` is found,
but is of no particular type (`Disk.not_typesFollowExtensions_socketDisk`).
-/

namespace CppDeps

/-! ## Types by extension -/

/-- The text of a path with an extension ends in a dot and that extension, and in no other one. -/
lemma Path.HasExtension.endsWith_iff {path extension : String}
    (h : Path.HasExtension path extension) (other : String) (hother : '.' ∉ other.toList) :
    Text.endsWith path ("." ++ other) = true ↔ extension = other := by
  obtain ⟨stem, -, hextension, rfl⟩ := h
  have hdot : ∀ s : String, ("." ++ s).toList = '.' :: s.toList := fun s => String.toList_append
  have hsuffix : '.' :: extension.toList <:+ (stem ++ "." ++ extension).toList := by
    rw [String.append_assoc, String.toList_append, hdot]
    exact List.suffix_append _ _
  rw [Text.endsWith_iff, hdot]
  constructor
  · intro hends
    rw [← String.toList_inj]
    -- of two endings of one text one is an ending of the other, and neither has a second dot
    rcases List.suffix_or_suffix_of_suffix hsuffix hends with hsub | hsub
    · rcases List.suffix_cons_iff.1 hsub with heq | hlater
      · exact (List.cons.inj heq).2
      · exact absurd (hlater.subset List.mem_cons_self) hother
    · rcases List.suffix_cons_iff.1 hsub with heq | hlater
      · exact (List.cons.inj heq).2.symm
      · exact absurd (hlater.subset List.mem_cons_self) hextension
  · rintro rfl
    exact hsuffix

namespace FileType

/-- The extensions of headers. -/
def headerExtensions : List String := ["h", "hpp", "hh"]

/-- The extensions of sources. -/
def sourceExtensions : List String := ["cpp", "cc", "cxx", "c"]

/-- The type of the files with the extension of a header or a source. -/
def ofExtension? (extension : String) : Option FileType :=
  if extension ∈ headerExtensions then some .header
  else if extension ∈ sourceExtensions then some .source
  else none

/-- A path ends in one of several endings if its extension is among them. -/
lemma any_endsWith {path extension : String} (h : Path.HasExtension path extension)
    (extensions : List String) (hdots : ∀ other ∈ extensions, '.' ∉ other.toList) :
    (extensions.map ("." ++ ·)).any (Text.endsWith path) = true ↔ extension ∈ extensions := by
  rw [List.any_map, List.any_eq_true]
  constructor
  · rintro ⟨other, hother, hends⟩
    rw [(h.endsWith_iff other (hdots other hother)).1 hends]
    exact hother
  · exact fun hmem => ⟨extension, hmem, (h.endsWith_iff extension (hdots extension hmem)).2 rfl⟩

/-- The type of a file with an extension: that of the extension, unless it is neither the extension of a
header nor that of a source. -/
lemma classify_of_hasExtension {path extension : String} (h : Path.HasExtension path extension) :
    classify path = (ofExtension? extension).getD
      (if Text.contains path "CMakeLists" = true ∨ extension = "cmake" then .buildScript
        else if extension = "json" then .jsonData else .other) := by
  have hheader : headerEndings.any (Text.endsWith path) = true ↔ extension ∈ headerExtensions :=
    any_endsWith h headerExtensions (by decide)
  have hsource : sourceEndings.any (Text.endsWith path) = true ↔ extension ∈ sourceExtensions :=
    any_endsWith h sourceExtensions (by decide)
  have hcmake : Text.endsWith path ".cmake" = true ↔ extension = "cmake" :=
    h.endsWith_iff "cmake" (by decide)
  have hjson : Text.endsWith path ".json" = true ↔ extension = "json" :=
    h.endsWith_iff "json" (by decide)
  simp only [classify, ofExtension?, hheader, hsource, Bool.or_eq_true, hcmake, hjson]
  split
  · rfl
  · split <;> rfl

end FileType

/-! ## Found files -/

namespace Disk

variable {disk : Disk} {config : AnalysisConfig} {root : OsText} {found : FoundFile}

/-- The key of a file that a scan finds ends in what is shown of the name of the file, and so has its
extension, which is configured. -/
lemma hasExtension_of_mem_scan (hfound : found ∈ disk.scan config root) :
    ∃ extension, Path.HasExtension found.key extension ∧ config.Configures extension := by
  have hname : ∀ {name : OsText}, config.supports name = true → ∀ before : String, ∃ extension,
      Path.HasExtension (before ++ name.lossy) extension ∧ config.Configures extension := by
    intro name hsupports before
    obtain ⟨extension, hextension, hconfigured⟩ := AnalysisConfig.supports_iff.1 hsupports
    exact ⟨extension, hextension.append_lossy before, hconfigured⟩
  unfold scan at hfound
  split at hfound
  · dsimp only at hfound
    split at hfound
    · rename_i hsupports
      obtain rfl := List.mem_singleton.1 hfound
      rw [Bool.and_eq_true] at hsupports
      obtain ⟨extension, hextension⟩ := hname hsupports.1 ""
      rw [String.empty_append] at hextension
      exact ⟨extension, hextension⟩
    · exact absurd hfound List.not_mem_nil
  · obtain ⟨way, -, hway⟩ := List.mem_filterMap.1 hfound
    unfold found? at hway
    split at hway
    · rename_i name hlast
      split at hway
      · rename_i hsupports
        obtain rfl := Option.some.inj hway
        obtain ⟨folders, rfl⟩ := List.getLast?_eq_some_iff.1 hlast
        rw [Way.key, List.map_append, List.map_singleton]
        rcases folders with _ | ⟨folder, folders⟩
        · obtain ⟨extension, hextension⟩ := hname hsupports ""
          rw [String.empty_append] at hextension
          exact ⟨extension, by simpa using hextension⟩
        · rw [String.intercalate_append_of_ne_nil (by simp) (by simp), String.intercalate_singleton]
          exact hname hsupports _
      · exact absurd hway (by simp)
    · exact absurd hway (by simp)
  · exact absurd hfound List.not_mem_nil

/-- Under the default settings the type of a file would be that of its extension, whatever its case. -/
def TypesFollowExtensions (disk : Disk) (root : OsText) : Prop :=
  ∀ found ∈ disk.scan {} root, ∀ extension, Path.HasExtension found.key extension →
    FileType.ofExtension? extension.toLower = some (FileType.classify found.key)

/-- **The types of found files.**  Each file that a scan finds under the default settings has, up to case,
the extension of a header or of a source.  The file is of that type exactly if the extension is in lower
case; if not, it is a build script or of no particular type, as the rest of its key says. -/
theorem classify_of_mem_scan (hfound : found ∈ disk.scan {} root) :
    ∃ extension fileType, Path.HasExtension found.key extension ∧
      FileType.ofExtension? extension.toLower = some fileType ∧
      FileType.classify found.key =
        if extension.toLower = extension then fileType
        else if Text.contains found.key "CMakeLists" = true then .buildScript
        else .other := by
  obtain ⟨extension, hextension, configured, hconfigured, hlower⟩ := hasExtension_of_mem_scan hfound
  have hdefault : ∀ configured ∈ ({} : AnalysisConfig).extensions,
      (FileType.ofExtension? (AnalysisConfig.withoutDots configured).toLower).isSome = true := by
    decide +kernel
  obtain ⟨fileType, htype⟩ := Option.isSome_iff_exists.1 (hdefault configured hconfigured)
  rw [hlower] at htype
  refine ⟨extension, fileType, hextension, htype, ?_⟩
  rw [FileType.classify_of_hasExtension hextension]
  by_cases hcase : extension.toLower = extension
  · rw [if_pos hcase, ← hcase, htype]
    rfl
  · -- all the extensions that tell a type are in lower case
    have hlisted : ∀ listed ∈ FileType.headerExtensions ++ FileType.sourceExtensions ++
        ["cmake", "json"], listed.toLower = listed := by decide +kernel
    have hnone : extension ∉ FileType.headerExtensions ++ FileType.sourceExtensions ++
        ["cmake", "json"] := fun hmem => hcase (hlisted extension hmem)
    simp only [List.mem_append, List.mem_cons, List.not_mem_nil, or_false, not_or] at hnone
    obtain ⟨⟨hheader, hsource⟩, hcmake, hjson⟩ := hnone
    rw [if_neg hcase, FileType.ofExtension?, if_neg hheader, if_neg hsource, Option.getD_none]
    simp only [hcmake, hjson, or_false, if_false]

/-- A file system with one header below the working directory, whose extension is in upper case. -/
def socketDisk : Disk :=
  ofFiles [] [(Text.bytes "p/src/net/Socket.H", { content := .empty })] []

/-- The header is found. -/
lemma mem_scan_socketDisk : (⟨"src/net/Socket.H", Text.bytes "p/src/net/Socket.H"⟩ : FoundFile) ∈
    socketDisk.scan {} (Text.bytes "p") := by
  decide +kernel

/-- What the types of found files come to for this header. -/
theorem classify_of_mem_scan_socketDisk :
    (⟨"src/net/Socket.H", Text.bytes "p/src/net/Socket.H"⟩ : FoundFile) ∈
        socketDisk.scan {} (Text.bytes "p") ∧
      ∃ extension fileType, Path.HasExtension "src/net/Socket.H" extension ∧
        FileType.ofExtension? extension.toLower = some fileType ∧
        FileType.classify "src/net/Socket.H" =
          if extension.toLower = extension then fileType
          else if Text.contains "src/net/Socket.H" "CMakeLists" = true then .buildScript
          else .other :=
  ⟨mem_scan_socketDisk, classify_of_mem_scan mem_scan_socketDisk⟩

/-- Its type is not that of its extension. -/
theorem not_typesFollowExtensions_socketDisk :
    ¬ socketDisk.TypesFollowExtensions (Text.bytes "p") := by
  intro h
  have hextension : Path.HasExtension "src/net/Socket.H" "H" :=
    ⟨"src/net/Socket", by decide, by decide, rfl⟩
  have hother : FileType.classify "src/net/Socket.H" = .other := by decide +kernel
  have htype := h _ mem_scan_socketDisk "H" hextension
  rw [hother] at htype
  exact absurd htype (by decide +kernel)

end Disk

end CppDeps
