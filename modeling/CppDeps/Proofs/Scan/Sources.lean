import CppDeps.Proofs.Disk.Files
import CppDeps.Proofs.Disk.Following
import CppDeps.Proofs.OsText
import CppDeps.Scan

/-!
# What a scan finds

The sources below a folder are the files whose extension is configured and that no excluded folder holds
(`Disk.IsSource`).  A scan of the folder finds exactly these (`Disk.mem_sourcesBelow_iff`), in the order
of the names along their ways.

The key of a source is its way as a text, with slashes between the names.  If the names are texts, no slash
is in them, so the key gives the way back and different sources have different keys
(`Way.byteNames_key`); of other names the key does not tell everything.  Keys are compared name by
name, and names by their bytes.  That is not the order of the keys as texts: `a/x.h` comes before
`a-b.h`, although a slash comes after a dash.
-/

namespace CppDeps

/-! ## Extensions -/

/-- An extension is what follows the last dot of a name, if something stands before that dot. -/
def Path.HasExtension (name extension : String) : Prop :=
  ∃ stem, stem ≠ "" ∧ '.' ∉ extension.toList ∧ name = stem ++ "." ++ extension

namespace OsText

variable {name : OsText} {extension : String}

/-- The extension of a name, if it is a text: what follows the last dot, if something stands before that
dot. -/
def HasExtension (name : OsText) (extension : String) : Prop :=
  ∃ stem : OsText, stem ≠ [] ∧ '.' ∉ extension.toList ∧ name = stem ++ dot :: Text.bytes extension

/-- The extension that is read from a name is the one it has. -/
lemma bind_extension?_eq_some_iff :
    name.extension?.bind toText? = some extension ↔ name.HasExtension extension := by
  have hdot : '.'.toUInt8 ∈ Text.bytes extension ↔ '.' ∈ extension.toList :=
    Text.mem_bytes_iff (by decide) extension
  rw [Option.bind_eq_some_iff]
  constructor
  · rintro ⟨bytes, hbytes, htext⟩
    obtain rfl := toText?_eq_some_iff.1 htext
    obtain ⟨stem, hstem, hnone, hname⟩ := extension?_eq_some_iff.1 hbytes
    exact ⟨stem, hstem, fun hmem => hnone (hdot.2 hmem), hname⟩
  · rintro ⟨stem, hstem, hnone, hname⟩
    refine ⟨Text.bytes extension, extension?_eq_some_iff.2 ⟨stem, hstem, ?_, hname⟩, toText?_bytes _⟩
    exact fun hmem => hnone (hdot.1 hmem)

/-- A name is shown with its extension, whatever stands before it. -/
lemma HasExtension.append_lossy (h : name.HasExtension extension) (before : String) :
    Path.HasExtension (before ++ name.lossy) extension := by
  obtain ⟨stem, hstem, hnone, rfl⟩ := h
  have hdot : String.singleton (Char.ofNat dot.toNat) = "." := rfl
  refine ⟨before ++ lossy stem, ?_, hnone, ?_⟩
  · exact fun hnil => lossy_ne_empty hstem (String.append_eq_empty_iff.1 hnil).2
  · rw [lossy_append_cons (by decide), lossy_bytes, hdot, String.append_assoc, String.append_assoc,
      String.append_assoc]

end OsText

namespace AnalysisConfig

/-- A configured extension without the dots in front of it. -/
def withoutDots (extension : String) : String :=
  String.ofList (extension.toList.dropWhile (· == '.'))

/-- Is an extension configured, whatever its case and the dots in front of the configured one? -/
def Configures (config : AnalysisConfig) (extension : String) : Prop :=
  ∃ configured ∈ config.extensions, (withoutDots configured).toLower = extension.toLower

variable {config : AnalysisConfig} {name : OsText}

/-- A file name is supported if it has a configured extension. -/
lemma supports_iff : config.supports name = true ↔
    ∃ extension, name.HasExtension extension ∧ config.Configures extension := by
  have hconfigures : ∀ extension,
      config.supportedExtensions.contains extension.toLower = true ↔ config.Configures extension := by
    intro extension
    rw [List.contains_iff_mem, supportedExtensions, List.mem_map]
    rfl
  simp only [← OsText.bind_extension?_eq_some_iff]
  unfold supports
  cases name.extension?.bind OsText.toText? with
  | none => simp
  | some extension => simp [← hconfigures]

/-- A directory is excluded if its name has the bytes of a configured one. -/
lemma excludes_eq_false_iff {name : EntryName} : config.excludes name = false ↔
    ∀ excluded ∈ config.excludeDirs, name.bytes ≠ Text.bytes excluded := by
  unfold excludes
  cases htext : name.bytes.toText? with
  | none =>
    refine iff_of_true rfl fun excluded _ hname => ?_
    rw [hname, OsText.toText?_bytes] at htext
    exact absurd htext (by simp)
  | some text =>
    rw [OsText.toText?_eq_some_iff.1 htext]
    dsimp only
    rw [← Bool.not_eq_true, List.contains_iff_mem]
    constructor
    · rintro hnot excluded hexcluded hbytes
      have hsame : some text = some excluded := by
        rw [← OsText.toText?_bytes text, hbytes, OsText.toText?_bytes]
      exact hnot (Option.some.inj hsame ▸ hexcluded)
    · exact fun h hmem => h text hmem rfl

end AnalysisConfig

/-! ## Keys -/

/-- The names along a key, each as its bytes. -/
def Path.byteNames (key : String) : List (List UInt8) :=
  (key.toList.splitOn '/').map fun field => Text.bytes (String.ofList field)

namespace Way

variable {way way' : Way}

/-- Are the names along a way texts? -/
def IsText (way : Way) : Prop :=
  ∀ name ∈ way, name.bytes.toText?.isSome = true

instance (way : Way) : Decidable way.IsText :=
  inferInstanceAs (Decidable (∀ name ∈ way, name.bytes.toText?.isSome = true))

/-- The bytes of a name that is a text are those of what is shown of it. -/
lemma IsText.bytes_lossy (h : way.IsText) {name : EntryName} (hname : name ∈ way) :
    Text.bytes name.bytes.lossy = name.bytes := by
  obtain ⟨text, htext⟩ := Option.isSome_iff_exists.1 (h name hname)
  rw [OsText.toText?_eq_some_iff.1 htext, OsText.lossy_bytes]

/-- **The names along the key of a way** are those of the way, if they are texts. -/
lemma byteNames_key (h : way.IsText) (hway : way ≠ []) :
    Path.byteNames way.key = way.map EntryName.bytes := by
  have hslash : ∀ field ∈ way.map fun name => name.bytes.lossy.toList, '/' ∉ field := by
    intro field hfield
    obtain ⟨name, hname, rfl⟩ := List.mem_map.1 hfield
    have hbytes : '/'.toUInt8 ∈ Text.bytes name.bytes.lossy ↔ '/' ∈ name.bytes.lossy.toList :=
      Text.mem_bytes_iff (by decide) _
    rw [← hbytes, h.bytes_lossy hname]
    exact name.isName.2.2.2
  have hne : (way.map fun name => name.bytes.lossy.toList) ≠ [] :=
    fun hnil => hway (List.map_eq_nil_iff.1 hnil)
  have hsplit : way.key.toList.splitOn '/' = way.map fun name => name.bytes.lossy.toList := by
    have hsep : "/".toList = ['/'] := rfl
    rw [key, String.toList_intercalate, hsep, List.map_map]
    exact List.splitOn_intercalate '/' hslash hne
  rw [Path.byteNames, hsplit, List.map_map]
  refine List.map_congr_left fun name hname => ?_
  rw [Function.comp_apply, String.ofList_toList, h.bytes_lossy hname]

/-- The way as a path has the bytes of the key, if its names are texts. -/
lemma path_eq_bytes_key (h : way.IsText) : way.path = Text.bytes way.key := by
  rw [path, key, OsText.bytes_intercalate, List.map_map]
  congr 1
  exact List.map_congr_left fun name hname => (h.bytes_lossy hname).symm

/-- The lesser way has the lesser names, byte by byte. -/
lemma byteNames_key_lt (h : way.IsText) (h' : way'.IsText) (hway : way ≠ []) (hway' : way' ≠ [])
    (hlt : way < way') : Path.byteNames way.key < Path.byteNames way'.key := by
  rw [byteNames_key h hway, byteNames_key h' hway']
  exact List.map_lt (fun _ _ => EntryName.lt_iff.1) hlt

end Way

/-! ## Sources -/

namespace Disk

variable {config : AnalysisConfig} {disk : Disk} {root : OsText} {folder folder' : Entry}
  {canAdd : Bool} {entries : List (EntryName × Entry)} {way : Way} {stored : StoredFile}

/-- A way below a folder leads to a source: to a file with a configured extension that is in no excluded
folder. -/
structure IsSource (config : AnalysisConfig) (folder : Entry) (way : Way) (stored : StoredFile) :
    Prop where
  /-- The way leads to a file. -/
  file : folder.below? way = some (.file stored)
  /-- No folder on the way has an excluded name. -/
  included : ∀ name ∈ way.dropLast, ∀ excluded ∈ config.excludeDirs, name.bytes ≠ Text.bytes excluded
  /-- The name at the end of the way has a configured extension. -/
  supported : ∃ name, way.getLast? = some name ∧
    ∃ extension, name.bytes.HasExtension extension ∧ config.Configures extension

/-- A source has a name. -/
lemma IsSource.ne_nil (h : IsSource config folder way stored) : way ≠ [] := by
  rintro rfl
  obtain ⟨name, hname, -⟩ := h.supported
  exact absurd hname (by simp)

/-- Does a way end in a name with a configured extension? -/
def endsSupported (config : AnalysisConfig) (way : Way) : Bool :=
  way.getLast?.any fun name => config.supports name.bytes

/-- The sources below a folder with their ways. -/
def sourcesBelow (config : AnalysisConfig) (folder : Entry) : List (Way × StoredFile) :=
  (filesOf config.excludes [] folder).filter fun file => endsSupported config file.1

/-- A source as a scan of `root` finds it. -/
def foundAt (root : OsText) (way : Way) : FoundFile :=
  ⟨way.key, root.join way.path⟩

/-- A way ends in a name with a configured extension, or not. -/
lemma endsSupported_iff : endsSupported config way = true ↔ ∃ name, way.getLast? = some name ∧
    ∃ extension, name.bytes.HasExtension extension ∧ config.Configures extension := by
  rw [endsSupported, Option.any_eq_true]
  exact exists_congr fun name => and_congr_right fun _ => AnalysisConfig.supports_iff

/-- **The sources below a folder.** -/
theorem mem_sourcesBelow_iff (h : folder.Ordered) :
    (way, stored) ∈ sourcesBelow config folder ↔ IsSource config folder way stored := by
  rw [sourcesBelow, List.mem_filter, mem_filesOf_iff h, endsSupported_iff]
  simp only [AnalysisConfig.excludes_eq_false_iff]
  exact ⟨fun ⟨⟨hfile, hincluded⟩, hsupported⟩ => ⟨hfile, hincluded, hsupported⟩,
    fun ⟨hfile, hincluded, hsupported⟩ => ⟨⟨hfile, hincluded⟩, hsupported⟩⟩

/-- The sources below a folder ascend in their ways. -/
lemma pairwise_sourcesBelow (config : AnalysisConfig) (h : folder.Ordered) :
    (sourcesBelow config folder).Pairwise fun source source' => source.1 < source'.1 :=
  (pairwise_filesOf h).filter _

/-- The keys of the sources ascend, if all names are texts. -/
lemma pairwise_keys (h : folder.Ordered)
    (htext : ∀ source ∈ sourcesBelow config folder, source.1.IsText) :
    ((sourcesBelow config folder).map fun source => source.1.key).Pairwise
      fun key key' => Path.byteNames key < Path.byteNames key' := by
  refine List.pairwise_map.2 ((pairwise_sourcesBelow config h).imp_of_mem ?_)
  intro source source' hmem hmem' hlt
  have hway : source.1 ≠ [] := ((mem_sourcesBelow_iff h).1 hmem).ne_nil
  have hway' : source'.1 ≠ [] := ((mem_sourcesBelow_iff h).1 hmem').ne_nil
  exact Way.byteNames_key_lt (htext source hmem) (htext source' hmem') hway hway' hlt

/-- Two folders with the same sources have them in the same order. -/
lemma sourcesBelow_congr (h : folder.Ordered) (h' : folder'.Ordered)
    (hsame : ∀ way stored, IsSource config folder way stored ↔ IsSource config folder' way stored) :
    sourcesBelow config folder = sourcesBelow config folder' := by
  have hascending := pairwise_sourcesBelow config h
  have hascending' := pairwise_sourcesBelow config h'
  have hmem : ∀ source, source ∈ sourcesBelow config folder ↔ source ∈ sourcesBelow config folder' := by
    rintro ⟨way, stored⟩
    rw [mem_sourcesBelow_iff h, mem_sourcesBelow_iff h', hsame]
  have hne : ∀ {source source' : Way × StoredFile}, source.1 < source'.1 → source ≠ source' := by
    rintro source _ hlt rfl
    exact List.lt_irrefl source.1 hlt
  -- ascending lists with the same members are equal
  have hperm := (List.perm_ext_iff_of_nodup (hascending.imp hne) (hascending'.imp hne)).2 hmem
  exact hperm.eq_of_pairwise (fun _ _ _ _ hlt hgt => absurd hlt (List.lt_asymm hgt)) hascending
    hascending'

/-- A scan of a folder finds the sources below it. -/
lemma scan_of_open? (hroot : disk.open? root = .ok (.folder canAdd entries)) :
    disk.scan config root =
      (sourcesBelow config (.folder canAdd entries)).map fun source => foundAt root source.1 := by
  have hfound : ∀ way, found? config root way =
      if endsSupported config way then some (foundAt root way) else none := by
    intro way
    unfold found? endsSupported
    cases way.getLast? <;> rfl
  rw [scan, hroot]
  dsimp only
  rw [List.filterMap_map, sourcesBelow, ← List.filterMap_eq_map, List.filterMap_filter, filesOf]
  refine List.filterMap_congr fun file _ => ?_
  rw [Function.comp_apply, hfound]
  rfl

end Disk

end CppDeps
