import CppDeps.Config
import CppDeps.Disk

/-!
# Finding the files to analyse

A scan lists the files below a root whose extension is among the configured ones, whatever its
case.  Directories with an excluded name are passed over, but never the root itself, and links are
not followed, though the root itself may be a link to a directory.  The files come in the order of
the names along their ways.

A file is opened by its path, which is made of bytes; its key is a text, in which replacement
characters stand for what is none in the names.
-/

namespace CppDeps

/-- A file that was found: its key, which is the way below the root as a text, and the path to open
it. -/
structure FoundFile where
  key : String
  path : OsText
  deriving DecidableEq, Repr

namespace AnalysisConfig

/-- The configured extensions in lower case, without dots in front. -/
def supportedExtensions (config : AnalysisConfig) : List String :=
  config.extensions.map fun extension =>
    (String.ofList (extension.toList.dropWhile (· == '.'))).toLower

/-- Has a file name a configured extension? -/
def supports (config : AnalysisConfig) (fileName : OsText) : Bool :=
  match fileName.extension?.bind OsText.toText? with
  | some extension => config.supportedExtensions.contains extension.toLower
  | none => false

/-- Is a directory name excluded?  A name that is no text is none of those configured. -/
def excludes (config : AnalysisConfig) (name : EntryName) : Bool :=
  match name.bytes.toText? with
  | some text => config.excludeDirs.contains text
  | none => false

end AnalysisConfig

namespace Way

/-- The names along a way as a text, with slashes between them. -/
def key (way : Way) : String :=
  "/".intercalate (way.map fun name => name.bytes.lossy)

/-- The names along a way as a path. -/
def path (way : Way) : OsText :=
  [OsText.slash].intercalate (way.map EntryName.bytes)

end Way

namespace Disk

/-- The file that is reached below `root` by a way, if its extension is configured. -/
def found? (config : AnalysisConfig) (root : OsText) (way : Way) : Option FoundFile :=
  match way.getLast? with
  | some name =>
    if config.supports name.bytes then some ⟨way.key, root.join way.path⟩ else none
  | none => none

/-- The files to analyse below a root.  A root that is a file yields that file, and a root that is
missing or a link to a file yields nothing. -/
def scan (disk : Disk) (config : AnalysisConfig) (root : OsText) : List FoundFile :=
  match disk.open? root with
  | .ok (.file _) =>
    let name := root.fileName
    if config.supports name && !disk.isLink root then [⟨name.lossy, root⟩] else []
  | .ok (.folder _ entries) =>
    ((filesAmong config.excludes [] entries).map Prod.fst).filterMap (found? config root)
  | _ => []

end Disk

end CppDeps
