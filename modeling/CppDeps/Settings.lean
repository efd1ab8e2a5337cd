import CppDeps.Config
import CppDeps.Failure
import CppDeps.Toml.Reader

/-!
# Settings from files

Settings are read from a TOML document.  Keys that mean nothing are passed over, and a key that is
missing leaves its default; a value of the wrong type spoils the whole document.  The limits on
cycles may also be written as the array of their values in order.
-/

namespace CppDeps

/-! ## Values -/

namespace Toml

/-- Reads a list of texts. -/
def strings? : Toml → Option (List String)
  | .array items =>
    items.mapM fun item =>
      match item with
      | .string text => some text
      | _ => none
  | _ => none

/-- Reads a count. -/
def count? : Toml → Option Nat
  | .integer n => if 0 ≤ n then some n.toNat else none
  | _ => none

/-- Reads the value of a key, if it is there. -/
def member? {α : Type} (entries : Entries) (key : String) (decode : Toml → Option α) :
    Option (Option α) :=
  match entries.lookup key with
  | none => some none
  | some value => (decode value).map some

end Toml

namespace CycleLimits

/-- Reads limits from the values at hand; none of them limits what it stands for if it is
missing. -/
def ofEntries? (entries : Toml.Entries) : Option CycleLimits := do
  let maxCycles ← Toml.member? entries "max_cycles" Toml.count?
  let maxCycleLength ← Toml.member? entries "max_cycle_length" Toml.count?
  return { maxCycles, maxCycleLength }

/-- Reads limits.  A date sets none. -/
def ofToml? : Toml → Option CycleLimits
  | .table _ entries => ofEntries? entries
  | .array items => ofEntries? (["max_cycles", "max_cycle_length"].zip items)
  | .datetime => some {}
  | _ => none

end CycleLimits

namespace AnalysisConfig

/-- Reads settings from the entries of a document. -/
def ofEntries? (entries : Toml.Entries) : Option AnalysisConfig := do
  let defaults : AnalysisConfig := {}
  let excludeDirs ← Toml.member? entries "exclude_dirs" Toml.strings?
  let extensions ← Toml.member? entries "extensions" Toml.strings?
  let cycles ← Toml.member? entries "cycles" CycleLimits.ofToml?
  let topCoupled ← Toml.member? entries "top_coupled" Toml.count?
  return { excludeDirs := excludeDirs.getD defaults.excludeDirs
           extensions := extensions.getD defaults.extensions
           cycles := cycles.getD defaults.cycles
           topCoupled := topCoupled.getD defaults.topCoupled }

/-- Reads settings from the text of a document. -/
def parse? (text : String) : Option AnalysisConfig :=
  match Toml.parse? text with
  | some (.table _ entries) => ofEntries? entries
  | _ => none

/-! ## Files -/

/-- The settings in a file. -/
def fromFile (disk : Disk) (path : OsText) : Except Failure AnalysisConfig :=
  match disk.readText path with
  | .error fault => .error (.unreadable path fault)
  | .ok text =>
    match parse? text with
    | some config => .ok config
    | none => .error (.invalidSettings path)

/-- The settings of a directory: those in its settings file, or the defaults if that file is missing
or cannot be used. -/
def load (disk : Disk) (directory : OsText) : AnalysisConfig :=
  let path := directory.join (Text.bytes configFileName)
  if disk.isFile path then (fromFile disk path).toOption.getD {} else {}

end AnalysisConfig

end CppDeps
