import CppDeps.Codebase
import CppDeps.CommandLine
import CppDeps.Report
import CppDeps.Settings

/-!
# The program

A run reads the command line and the settings and then either reports on a single file, or analyses
a directory, writes the graph to a file and reports on it.  A run is a function of the words of the
command line and of the file system, and leaves the file system as it may have changed it, whether it
ends well or fails.
-/

namespace CppDeps

/-- The outcome of a run: the lines that it prints or why it fails, and the file system as it leaves
it. -/
structure Outcome where
  result : Except Failure (List String)
  disk : Disk

namespace Program

/-- The name of the file that the graph is written to unless another is given. -/
def defaultOutputName : String := "dependency_graph.json"

/-! ## Settings -/

/-- The directory that may hold the settings for an input. -/
def settingsDirectory (disk : Disk) (input : OsText) : OsText :=
  if disk.isFile input then input.directory else input

/-- The settings that options on the command line replace. -/
def override (config : AnalysisConfig) (line : CommandLine) : AnalysisConfig :=
  { config with
    cycles :=
      { maxCycles := line.maxCycles.or config.cycles.maxCycles
        maxCycleLength := line.maxCycleLength.or config.cycles.maxCycleLength }
    topCoupled := line.top.getD config.topCoupled }

/-- The settings of a run.  A settings file that is named on the command line has to be usable. -/
def settings (disk : Disk) (line : CommandLine) : Except Failure AnalysisConfig :=
  match line.config with
  | some path => (AnalysisConfig.fromFile disk path).map fun config => override config line
  | none => .ok (override (AnalysisConfig.load disk (settingsDirectory disk line.input)) line)

/-! ## Export -/

/-- The text of a document, over several lines or without blanks. -/
def documentText (pretty : Bool) (document : GraphExport) : String :=
  if pretty then document.toJson.pretty else document.toJson.compact

/-- Writes a document to a file. -/
def writeExport (disk : Disk) (pretty : Bool) (document : GraphExport) (path : OsText) :
    Disk × Option Failure :=
  let (disk, fault) := disk.write path (documentText pretty document).toUTF8
  (disk, fault.map (Failure.unwritable path))

/-! ## Runs -/

/-- Reports on a single file. -/
def runFile (disk : Disk) (parser : Parser) (path : OsText) : Outcome :=
  ⟨(disk.analyzeFile parser path).map Report.ofFile, disk⟩

/-- Analyses a directory, writes the graph and reports on it. -/
def runDirectory (disk : Disk) (parser : Parser) (config : AnalysisConfig) (root : OsText)
    (output : OsText) : Outcome :=
  let graph := disk.analyze parser config root
  let report := graph.findCycles config.cycles
  let document := graph.exportWithCycles report
  match writeExport disk true document output with
  | (disk, some failure) => ⟨.error failure, disk⟩
  | (disk, none) =>
    ⟨.ok (Report.ofGraph graph report document.metadata config.topCoupled output.lossy), disk⟩

/-- Runs a command line that was read. -/
def runLine (disk : Disk) (parser : Parser) (line : CommandLine) : Outcome :=
  match settings disk line with
  | .error failure => ⟨.error failure, disk⟩
  | .ok config =>
    if disk.isFile line.input then runFile disk parser line.input
    else
      runDirectory disk parser config line.input
        (line.output.getD (line.input.join (Text.bytes defaultOutputName)))

/-- Runs the program. -/
def run (disk : Disk) (parser : Parser) (words : List OsText) : Outcome :=
  match CommandLine.parse words with
  | .ok line => runLine disk parser line
  | .error error => ⟨.error (.usage error), disk⟩

end Program

end CppDeps
