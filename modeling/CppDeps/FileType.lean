import CppDeps.Text

/-!
# Types of file

What a file holds, judged by the text of its path alone.
-/

namespace CppDeps

/-- What a file holds. -/
inductive FileType
  | header
  | source
  | buildScript
  | jsonData
  | other
  deriving DecidableEq, Repr

namespace FileType

/-- The endings of the paths of headers. -/
def headerEndings : List String := [".h", ".hpp", ".hh"]

/-- The endings of the paths of sources. -/
def sourceEndings : List String := [".cpp", ".cc", ".cxx", ".c"]

/-- The type of the file with a path.  Upper and lower case differ. -/
def classify (path : String) : FileType :=
  if headerEndings.any (Text.endsWith path) then .header
  else if sourceEndings.any (Text.endsWith path) then .source
  else if Text.contains path "CMakeLists" || Text.endsWith path ".cmake" then .buildScript
  else if Text.endsWith path ".json" then .jsonData
  else .other

end FileType

end CppDeps
