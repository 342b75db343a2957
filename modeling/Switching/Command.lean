/-
Commands.

A command is one line of text: a word that says what to do and the words it is done to.
Blanks separate the words and may stand at both ends, and the line may begin with the
trigger `!b`.  Reading says which command a line is, not whether it can be carried out;
a name may be any single character here.
-/
import Switching.Error
import Switching.Text.Blank

namespace Switching

/-- What a view shows. -/
inductive ViewTarget
  /-- Every function stored. -/
  | all
  /-- The function of one name. -/
  | function (name : Char)
deriving DecidableEq

/-- A command. -/
inductive Command
  /-- Stores an expression under a name. -/
  | set (name : Char) (expression : String)
  /-- Removes every function. -/
  | clear
  /-- Shows definitions, written out if `expand`. -/
  | view (target : ViewTarget) (expand : Bool)
  /-- Shows the truth table of some functions. -/
  | table (targets : List Char)
  /-- Shows the Karnaugh map of a function. -/
  | kmap (target : Char)
deriving DecidableEq

namespace Command

/-- The single character that a word is. -/
def single (word : List Char) : Except CommandError Char :=
  match word with
  | [c] => .ok c
  | word => .error (.longName (String.ofList word))

/-- The single characters that all words are, or the reason that the first one is not. -/
def singles : List (List Char) → Except CommandError (List Char)
  | [] => .ok []
  | word :: words =>
    match single word with
    | .error e => .error e
    | .ok c =>
      match singles words with
      | .error e => .error e
      | .ok cs => .ok (c :: cs)

/-- Reads what follows `set`: a name, of which only the first character counts, and an
expression, which may hold blanks. -/
def readSet (rest : List Char) : Except CommandError Command :=
  match Text.cut rest with
  | some (name :: _, expression) => .ok (.set name (String.ofList (Text.trim expression)))
  | _ => .error .incompleteSet

/-- Reads what follows `view`: a target and, among any other words, `insert`. -/
def readView : List (List Char) → Except CommandError Command
  | [] => .error .viewWithoutTarget
  | target :: words =>
    let expand := words.any (· == "insert".toList)
    if target = "all".toList then .ok (.view .all expand)
    else
      match single target with
      | .error e => .error e
      | .ok c => .ok (.view (.function c) expand)

/-- Reads what follows `table`: one name or more. -/
def readTable : List (List Char) → Except CommandError Command
  | [] => .error .tableWithoutTargets
  | words =>
    match singles words with
    | .error e => .error e
    | .ok targets => .ok (.table targets)

/-- Reads what follows `kmap`: one name. -/
def readKmap : List (List Char) → Except CommandError Command
  | [word] =>
    match single word with
    | .error e => .error e
    | .ok c => .ok (.kmap c)
  | _ => .error .mapTargets

/-- Takes the trigger, and the blanks behind it, from the front of a line. -/
def dropTrigger : List Char → List Char
  | '!' :: 'b' :: rest => Text.trimStart rest
  | line => line

/-- Reads a command whose first word has been separated from the trimmed rest. -/
def read (subcommand rest : List Char) : Except CommandError Command :=
  if subcommand = "set".toList then readSet rest
  else if subcommand = "clear".toList then .ok .clear
  else if subcommand = "view".toList then readView (Text.words rest)
  else if subcommand = "table".toList then readTable (Text.words rest)
  else if subcommand = "kmap".toList then readKmap (Text.words rest)
  else if subcommand = [] then .error .missingSubcommand
  else .error (.unknownSubcommand (String.ofList subcommand))

/-- Reads a line of text as a command. -/
def parse (line : String) : Except Error Command :=
  let line := dropTrigger (Text.trim line.toList)
  let command :=
    match Text.cut line with
    | some (subcommand, rest) => read subcommand (Text.trim rest)
    | none => read line []
  match command with
  | .ok c => .ok c
  | .error e => .error (.invalidCommand e)

end Command

end Switching
