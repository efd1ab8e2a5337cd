import CppDeps.SymbolIndex

/-!
# From include paths to files

An include path is often only part of the path of the file that it means.  Five strategies map it
to a known file; they are tried in a fixed order and the first that finds a file decides.
-/

namespace CppDeps

namespace SymbolIndex

/-! ## Strategies -/

/-- The include path is the path of a known file. -/
def exactMatch (index : SymbolIndex) (path _source : String) : Option String :=
  index.fileKey? path

/-- The file last added under the basename of the include path. -/
def basenameMatch (index : SymbolIndex) (path _source : String) : Option String :=
  index.fileForBasename? (Path.basename path)

/-- The first file whose path ends with the text of the include path. -/
def suffixMatch (index : SymbolIndex) (path _source : String) : Option String :=
  index.filePaths.find? fun known => Text.endsWith known path

/-- The include path seen from the directory of the including file. -/
def relativeTarget (path source : String) : String :=
  let directory := ((Path.parse source).parent?).getD (Path.parse "")
  (directory.join (Path.parse path)).normalize.render

/-- The include path, seen from the directory of the including file, is that of a known file. -/
def relativeMatch (index : SymbolIndex) (path source : String) : Option String :=
  index.fileKey? (relativeTarget path source)

/-- The first file with the basename of the include path. -/
def basenameScan (index : SymbolIndex) (path _source : String) : Option String :=
  index.filePaths.find? fun known => Path.basename known == Path.basename path

/-! ## Resolution -/

/-- A way to find the file that an include path means, given also the including file. -/
abbrev IncludeStrategy := SymbolIndex → String → String → Option String

/-- The strategies by name, in the order in which they are tried. -/
def includeStrategies : List (String × IncludeStrategy) :=
  [("exact", exactMatch),
   ("basename", basenameMatch),
   ("suffix", suffixMatch),
   ("relative", relativeMatch),
   ("basename-scan", basenameScan)]

/-- The file that an include path means: what the first strategy to succeed finds. -/
def resolveInclude (index : SymbolIndex) (path source : String) : Option String :=
  includeStrategies.findSome? fun (_, strategy) => strategy index path source

end SymbolIndex

end CppDeps
