import CppDeps.Disk

/-!
# Failures

The reasons for which a run of the program ends without a report, and their wording.
-/

namespace CppDeps

/-- What is wrong with a command line, or which of its two other uses was asked for. -/
inductive UsageError
  | missingInput
  | unknownArgument
  /-- A path or a number that has to follow an option is missing or empty. -/
  | missingValue
  /-- The text that follows an option is no count. -/
  | invalidNumber
  /-- Where a number was expected, there are bytes of no text. -/
  | invalidText
  | repeatedOption
  /-- A flag was given a value. -/
  | unwantedValue
  | helpRequested
  | versionRequested
  deriving DecidableEq, Repr

/-- Why a run ended without a report. -/
inductive Failure
  | usage (error : UsageError)
  | unreadable (path : OsText) (fault : Fault)
  | invalidSettings (path : OsText)
  | unwritable (path : OsText) (fault : Fault)
  deriving DecidableEq, Repr

namespace UsageError

/-- The wording of an error in the command line. -/
def message : UsageError → String
  | .missingInput => "an input is required"
  | .unknownArgument => "unknown argument"
  | .missingValue => "an option lacks its value"
  | .invalidNumber => "a number was expected"
  | .invalidText => "a text was expected"
  | .repeatedOption => "an option was given twice"
  | .unwantedValue => "a flag takes no value"
  | .helpRequested => "help"
  | .versionRequested => "version"

end UsageError

namespace Failure

/-- The wording of a failure. -/
def message : Failure → String
  | .usage error => error.message
  | .unreadable path fault => "failed to read " ++ path.lossy ++ ": " ++ fault.message
  | .invalidSettings path => "invalid configuration in " ++ path.lossy
  | .unwritable path fault => "failed to write export to " ++ path.lossy ++ ": " ++ fault.message

end Failure

end CppDeps
