/-
Options of the command line.

Arguments are read from left to right.  An option that takes a value finds it behind an
equals sign, behind its short name, or in the next argument, unless that begins with a
hyphen.  Short names may be run together.  Nothing but options is accepted, none of
them twice, and the first fault decides; so does a request for help, if it comes first.
-/
import Switching.Session

namespace Switching.Console

/-- What the command line sets. -/
structure Options where
  /-- The limits of the session. -/
  config : Config := {}
  /-- The grade of the last events that are reported: none at 0, errors at 1, and so on. -/
  verbosity : Nat := 2
deriving DecidableEq

/-- The options by name. -/
inductive OptionName
  | logLevel
  | maxVars
  | maxTokens
  | limit
  | expand
  | help
deriving DecidableEq

/-- Why a command line leads to no conversation. -/
inductive Ending
  /-- Help has been asked for. -/
  | help
  /-- The command line is at fault. -/
  | misuse
deriving DecidableEq

namespace OptionName

/-- The option of a long name. -/
def ofLong? (name : List Char) : Option OptionName :=
  if name = "log-level".toList then some .logLevel
  else if name = "max-vars".toList then some .maxVars
  else if name = "max-tokens".toList then some .maxTokens
  else if name = "limit".toList then some .limit
  else if name = "expand".toList then some .expand
  else if name = "help".toList then some .help
  else none

/-- The option of a short name. -/
def ofShort? : Char → Option OptionName
  | 'l' => some .logLevel
  | 'm' => some .maxVars
  | 'e' => some .expand
  | 'h' => some .help
  | _ => none

/-- The option takes a value. -/
def takesValue : OptionName → Bool
  | .expand | .help => false
  | _ => true

end OptionName

/-! ### Values -/

/-- The number that digits spell. -/
def digitsValue (digits : List Char) : Nat :=
  digits.foldl (fun n d => 10 * n + (d.toNat - '0'.toNat)) 0

/-- Reads a count: decimal digits, with a plus sign in front or without. -/
def readCount (text : List Char) : Option Nat :=
  let digits := match text with
    | '+' :: digits => digits
    | digits => digits
  if digits ≠ [] ∧ digits.all Char.isDigit ∧ digitsValue digits ≤ maxCount then
    some (digitsValue digits)
  else none

/-- Reads a grade of events; capitals make no difference. -/
def readVerbosity (text : List Char) : Option Nat :=
  ["off", "error", "warn", "info", "debug", "trace"].findIdx?
    fun name => name.toList = text.map Char.toLower

/-! ### Arguments -/

/-- What has been read of a command line. -/
structure Reading where
  /-- The settings so far. -/
  options : Options := {}
  /-- The options given so far. -/
  given : List OptionName := []

namespace Reading

/-- The reading with other limits. -/
def withConfig (r : Reading) (change : Config → Config) : Reading :=
  { r with options := { r.options with config := change r.options.config } }

/-- The setting of an option to a value, if it is one of its values. -/
def set? (r : Reading) (name : OptionName) (value : List Char) : Option Reading :=
  match name with
  | .logLevel =>
    (readVerbosity value).map fun n => { r with options := { r.options with verbosity := n } }
  | .maxVars =>
    (readCount value).map fun n => r.withConfig ({ · with maxTableVars := n })
  | .maxTokens =>
    (readCount value).map fun n => r.withConfig ({ · with maxStatementTokens := n })
  | .limit =>
    (readCount value).map fun n => r.withConfig ({ · with messageLimit := n })
  | .expand => some (r.withConfig ({ · with expandByDefault := true }))
  | .help => none

/-- Takes an option with its value; one that takes none has the empty one. -/
def give (r : Reading) (name : OptionName) (value : List Char) : Except Ending Reading :=
  if name = .help then .error .help
  else if name ∈ r.given then .error .misuse
  else
    match r.set? name value with
    | some r => .ok { r with given := name :: r.given }
    | none => .error .misuse

/-- Reads what follows the hyphen of short names run together: the reading, and the
option that still lacks its value. -/
def shorts (r : Reading) : List Char → Except Ending (Reading × Option OptionName)
  | [] => .ok (r, none)
  | c :: rest =>
    match OptionName.ofShort? c with
    | none => .error .misuse
    | some name =>
      if name.takesValue then
        match rest with
        | [] => .ok (r, some name)
        | '=' :: value => (r.give name value).map (·, none)
        | value => (r.give name value).map (·, none)
      else
        match r.give name [] with
        | .error e => .error e
        | .ok r => r.shorts rest

/-- Reads what follows the two hyphens of a long name. -/
def long (r : Reading) (text : List Char) : Except Ending (Reading × Option OptionName) :=
  match OptionName.ofLong? (text.takeWhile (· != '=')), text.dropWhile (· != '=') with
  | none, _ => .error .misuse
  | some name, [] =>
    if name.takesValue then .ok (r, some name) else (r.give name []).map (·, none)
  | some name, _ :: value =>
    if name.takesValue then (r.give name value).map (·, none) else .error .misuse

/-- Reads the arguments that are left; `lacking` is the option that the first of them
has to give its value. -/
def arguments (r : Reading) (lacking : Option OptionName) :
    List (List Char) → Except Ending Reading
  | [] => if lacking.isNone then .ok r else .error .misuse
  | argument :: rest =>
    match lacking, argument with
    | some _, '-' :: _ :: _ => .error .misuse
    | some name, value =>
      match r.give name value with
      | .error e => .error e
      | .ok r => r.arguments none rest
    | none, ['-', '-'] => if rest.isEmpty then .ok r else .error .misuse
    | none, '-' :: '-' :: text =>
      match r.long text with
      | .error e => .error e
      | .ok (r, lacking) => r.arguments lacking rest
    | none, '-' :: c :: text =>
      match r.shorts (c :: text) with
      | .error e => .error e
      | .ok (r, lacking) => r.arguments lacking rest
    | none, _ => .error .misuse

end Reading

/-- Reads a command line. -/
def Options.parse (args : List String) : Except Ending Options :=
  match Reading.arguments {} none (args.map String.toList) with
  | .ok r => .ok r.options
  | .error e => .error e

/-- What is shown to one who asks for help. -/
def helpText : String :=
  Text.stacked [
    "Define boolean functions and print their truth tables and k-maps",
    "",
    "Usage: repl [OPTIONS]",
    "",
    "Options:",
    "  -l, --log-level <LOG_LEVEL>    Log level for library diagnostics [default: warn]",
    "  -m, --max-vars <MAX_VARS>      Largest number of variables a truth table may span [default: 8]",
    "      --max-tokens <MAX_TOKENS>  Largest number of tokens a resolved statement may have [default: 100000]",
    "      --limit <LIMIT>            Maximum characters per output page [default: 2000]",
    "  -e, --expand                   Expand nested functions in `view` without `insert`",
    "  -h, --help                     Print help",
    ""]

end Switching.Console
