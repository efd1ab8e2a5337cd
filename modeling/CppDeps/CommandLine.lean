import CppDeps.Failure

/-!
# The command line

The words of a command line are read from left to right.  An option is written in full after two
dashes or as one letter after a single dash, letters of flags can be joined, and the value of an
option is part of the same word or is the next word.

A value in the next word is checked only when the option after it, or the end of the line, is
reached; so an unknown word further on is reported before it.

Words are bytes, and so are the paths among the values.  What is no text names no option and is no
number.
-/

namespace CppDeps

/-! ## Options -/

/-- The options that take a value. -/
inductive ValueOption
  | input
  | output
  | config
  | maxCycles
  | maxCycleLength
  | top
  deriving DecidableEq, Repr

/-- The options that take none. -/
inductive Flag
  | verbose
  | help
  | version
  deriving DecidableEq, Repr

/-- What a name on the command line stands for. -/
inductive OptionName
  | value (option : ValueOption)
  | flag (flag : Flag)
  deriving DecidableEq, Repr

namespace OptionName

/-- The option of a full name. -/
def ofLong? : String → Option OptionName
  | "input" => some (.value .input)
  | "output" => some (.value .output)
  | "config" => some (.value .config)
  | "max-cycles" => some (.value .maxCycles)
  | "max-cycle-length" => some (.value .maxCycleLength)
  | "top" => some (.value .top)
  | "verbose" => some (.flag .verbose)
  | "help" => some (.flag .help)
  | "version" => some (.flag .version)
  | _ => none

/-- The option of a letter. -/
def ofLetter? : Char → Option OptionName
  | 'i' => some (.value .input)
  | 'o' => some (.value .output)
  | 'c' => some (.value .config)
  | 'v' => some (.flag .verbose)
  | 'h' => some (.flag .help)
  | 'V' => some (.flag .version)
  | _ => none

end OptionName

/-- A command line that was read. -/
structure CommandLine where
  input : OsText
  output : Option OsText := none
  config : Option OsText := none
  maxCycles : Option Nat := none
  maxCycleLength : Option Nat := none
  top : Option Nat := none
  verbose : Bool := false
  deriving DecidableEq, Repr

namespace CommandLine

/-! ## Values -/

/-- The options read so far, and the option whose value was not checked yet, with that value if it
was read. -/
structure Draft where
  input : Option OsText := none
  output : Option OsText := none
  config : Option OsText := none
  maxCycles : Option Nat := none
  maxCycleLength : Option Nat := none
  top : Option Nat := none
  verbose : Bool := false
  pending : Option (ValueOption × Option OsText) := none

/-- Reads a count: decimal digits, with or without a plus sign, below 2^64. -/
def count? (text : String) : Option Nat :=
  let digits :=
    match text.toList with
    | '+' :: digits => digits
    | digits => digits
  if digits.isEmpty || !digits.all Char.isDigit then none
  else
    let value := Text.valueOf 10 digits
    if value < 18446744073709551616 then some value else none

/-- Checks a path that is given for an option. -/
def checkPath (present : Option OsText) (path : OsText) : Except UsageError (Option OsText) :=
  if present.isSome then .error .repeatedOption
  else if path.isEmpty then .error .missingValue
  else .ok (some path)

/-- Checks a count that is given for an option. -/
def checkCount (present : Option Nat) (word : OsText) : Except UsageError (Option Nat) :=
  if present.isSome then .error .repeatedOption
  else
    match word.toText?.map count? with
    | some (some n) => .ok (some n)
    | some none => .error .invalidNumber
    | none => .error .invalidText

namespace Draft

/-- Gives an option its value. -/
def assign (draft : Draft) (option : ValueOption) (word : OsText) : Except UsageError Draft :=
  match option with
  | .input => (checkPath draft.input word).map fun value => { draft with input := value }
  | .output => (checkPath draft.output word).map fun value => { draft with output := value }
  | .config => (checkPath draft.config word).map fun value => { draft with config := value }
  | .maxCycles =>
    (checkCount draft.maxCycles word).map fun value => { draft with maxCycles := value }
  | .maxCycleLength =>
    (checkCount draft.maxCycleLength word).map fun value => { draft with maxCycleLength := value }
  | .top => (checkCount draft.top word).map fun value => { draft with top := value }

/-- Checks the value that was put off. -/
def settle (draft : Draft) : Except UsageError Draft :=
  match draft.pending with
  | none => .ok draft
  | some (_, none) => .error .missingValue
  | some (option, some word) => { draft with pending := none }.assign option word

/-- Sets a flag. -/
def raise (draft : Draft) (flag : Flag) : Except UsageError Draft := do
  let draft ← draft.settle
  match flag with
  | .verbose => if draft.verbose then .error .repeatedOption else .ok { draft with verbose := true }
  | .help => .error .helpRequested
  | .version => .error .versionRequested

/-- Takes an option whose value is the part of the word that follows it, or the next word if there
is no such part. -/
def take (draft : Draft) (option : ValueOption) (attached : Option OsText) :
    Except UsageError Draft := do
  let draft ← draft.settle
  match attached with
  | some word => draft.assign option word
  | none => .ok { draft with pending := some (option, none) }

/-! ## Words -/

/-- The byte of a dash. -/
def dash : UInt8 := 0x2d

/-- The byte of an equals sign. -/
def equals : UInt8 := 0x3d

/-- Reads an option in full, without its dashes. -/
def readLong (draft : Draft) (word : OsText) : Except UsageError Draft :=
  let name := word.takeWhile (· != equals)
  let attached := (word.drop name.length).tail?
  match (OsText.toText? name).bind OptionName.ofLong? with
  | none => .error .unknownArgument
  | some (.value option) => draft.take option attached
  | some (.flag flag) => if attached.isSome then .error .unwantedValue else draft.raise flag

/-- Reads joined letters, without their dash. -/
def readLetters (draft : Draft) : OsText → Except UsageError Draft
  | [] => .ok draft
  | letter :: rest =>
    match OptionName.ofLetter? (Char.ofNat letter.toNat) with
    | none => .error .unknownArgument
    | some (.flag flag) =>
      match draft.raise flag with
      | .ok draft => draft.readLetters rest
      | .error error => .error error
    | some (.value option) =>
      if rest.isEmpty then draft.take option none
      else if rest.head? = some equals then draft.take option rest.tail?
      else draft.take option (some rest)

/-- Reads a word that is no option: the value of the option before it. -/
def readWord (draft : Draft) (word : OsText) : Except UsageError Draft :=
  match draft.pending with
  | some (option, none) => .ok { draft with pending := some (option, some word) }
  | _ => .error .unknownArgument

/-- Reads the words of a command line.  No word may follow a `--`. -/
def readAll (draft : Draft) : List OsText → Except UsageError Draft
  | [] => draft.settle
  | word :: words => do
    if word = [dash, dash] then
      if words.isEmpty then draft.settle else .error .unknownArgument
    else if [dash, dash].isPrefixOf word then (← draft.readLong (word.drop 2)).readAll words
    else if [dash].isPrefixOf word ∧ word ≠ [dash] then
      (← draft.readLetters word.tail).readAll words
    else (← draft.readWord word).readAll words

/-- The command line of a draft, which has to name an input. -/
def finish (draft : Draft) : Except UsageError CommandLine :=
  match draft.input with
  | none => .error .missingInput
  | some input =>
    .ok { input
          output := draft.output
          config := draft.config
          maxCycles := draft.maxCycles
          maxCycleLength := draft.maxCycleLength
          top := draft.top
          verbose := draft.verbose }

end Draft

/-- Reads a command line. -/
def parse (words : List OsText) : Except UsageError CommandLine := do
  (← ({} : Draft).readAll words).finish

end CommandLine

end CppDeps
