import CppDeps.Json.Reader
import CppDeps.Json.SyntaxTree
import CppDeps.Program

/-!
# The command

The command takes the names of all files that it may need from its standard input, one a line, and
reads these files.  The syntax tree of a file stands beside it in a file of the same name with
`.tree.json` at its end, as some parser has written it; a file without such a neighbour counts as one
that holds nothing.
-/

namespace CppDeps

namespace Command

/-- The lines of the standard input. -/
partial def readLines (stdin : IO.FS.Stream) (lines : List String) : IO (List String) := do
  let line ← stdin.getLine
  if line.isEmpty then return lines.reverse
  readLines stdin (String.ofList (line.toList.filter (· != '\n')) :: lines)

/-- A file as it is on the disk.  Of one that cannot be read only this is known. -/
def readFile (path : String) : IO StoredFile := do
  try
    return { content := ← IO.FS.readBinFile path }
  catch _ =>
    return { content := .empty, canRead := false }

/-- The ending of the files that hold syntax trees. -/
def treeEnding : String := ".tree.json"

/-- The tree of a file without constructs. -/
def emptyTree : SyntaxTree :=
  .node { kind := "translation_unit", startLine := 1, endLine := 1 } []

/-- The syntax trees found beside files, by the content of the files. -/
def readTrees (files : List (String × StoredFile)) : List (ByteArray × SyntaxTree) :=
  files.filterMap fun (path, stored) => do
    let written ← files.lookup (path ++ treeEnding)
    let text ← String.fromUTF8? written.content
    let tree ← SyntaxTree.ofJson? (← Json.parse? text)
    some (stored.content, tree)

/-- The parser that knows the given trees. -/
def parserOf (trees : List (ByteArray × SyntaxTree)) : Parser := fun source =>
  ((trees.find? fun entry => entry.1 == source).map Prod.snd).getD emptyTree

/-- The lines that explain the options. -/
def helpLines : List String :=
  ["Cross-file dependency graphs for C++ codebases",
   "",
   "Usage: cppgraph [OPTIONS] --input <PATH>",
   "",
   "Options:",
   "  -i, --input <PATH>            Directory to analyze, or a single file to summarize",
   "  -o, --output <FILE>           Export file path",
   "  -c, --config <FILE>           Configuration file",
   "      --max-cycles <N>          Stop cycle enumeration after this many cycles",
   "      --max-cycle-length <N>    Only report cycles with at most this many files",
   "      --top <N>                 Number of most-coupled files to list",
   "  -v, --verbose                 Enable debug logging",
   "  -h, --help                    Print help",
   "  -V, --version                 Print version"]

/-- The way to the working directory. -/
def workingDirectory : IO Way := do
  let path := (← IO.getEnv "PWD").getD "/"
  return Way.ofPath (Text.bytes path)

/-- Runs the command line and gives the exit code. -/
def exitCode (words : List String) : IO UInt32 := do
  let paths ← readLines (← IO.getStdin) []
  let files ← paths.mapM fun path => return (path, ← readFile path)
  let disk := Disk.ofFiles (← workingDirectory)
    (files.map fun (path, stored) => (Text.bytes path, stored)) []
  let outcome := Program.run disk (parserOf (readTrees files)) (words.map Text.bytes)
  for (way, stored) in Disk.changes disk outcome.disk do
    IO.FS.writeBinFile ("/" ++ way.key) stored.content
  match outcome.result with
  | .ok report =>
    IO.print (Report.render report)
    return 0
  | .error (.usage .helpRequested) =>
    IO.print (Report.render helpLines)
    return 0
  | .error (.usage .versionRequested) =>
    IO.println "cppgraph 0.1.0"
    return 0
  | .error (.usage error) =>
    IO.eprintln ("error: " ++ error.message)
    return 2
  | .error failure =>
    IO.eprintln ("Error: " ++ failure.message)
    return 1

end Command

end CppDeps

/-- Runs the command. -/
def main (words : List String) : IO UInt32 :=
  CppDeps.Command.exitCode words
