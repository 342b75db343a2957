/-
Reasons for refusing.

Every request either answers or is refused for exactly one of the reasons below.  A
reason carries what the user needs to know about it, and `message` puts it into words;
nothing else in the library composes an error text.
-/
import Switching.Token

namespace Switching

/-- The deepest nesting of parentheses and negations that a statement may have. -/
def maxNesting : Nat := 256

/-- The greatest depth of an expression that is read from a statement. -/
def maxDepth : Nat := 1024

/-- Why a statement is no expression.  Positions count tokens from one. -/
inductive ParseError
  /-- The statement has no tokens. -/
  | empty
  /-- The statement ends where an operand has to begin. -/
  | missingOperand
  /-- At `position` an operand has to begin, but `token` cannot begin one. -/
  | noOperand (token : Token) (position : Nat)
  /-- The expression is complete before `token` at `position`. -/
  | leftover (token : Token) (position : Nat)
  /-- A parenthesis is open and does not close at `position`. -/
  | unclosed (position : Nat)
  /-- A reference stands where an operand begins. -/
  | unresolved (name : Letter)
  /-- The token at `position` opens one level of nesting too many. -/
  | tooNested (position : Nat)
  /-- The operand that ends at `position` makes the expression too deep. -/
  | tooDeep (position : Nat)
deriving DecidableEq

namespace ParseError

/-- The reason in words. -/
def message : ParseError → String
  | .empty => "empty statement"
  | .missingOperand => "unexpected end of statement, expected an operand"
  | .noOperand token position =>
    "unexpected '" ++ token.toText ++ "' at token " ++ toString position ++ ", expected an operand"
  | .leftover token position => "unexpected '" ++ token.toText ++ "' at token " ++ toString position
  | .unclosed position => "unclosed '(' before token " ++ toString position
  | .unresolved name => "unresolved reference '$" ++ name.toText ++ "'"
  | .tooNested position =>
    "nesting deeper than " ++ toString maxNesting ++ " levels at token " ++ toString position
  | .tooDeep position =>
    "expression deeper than " ++ toString maxDepth ++ " levels at token " ++ toString position

end ParseError

/-- Why a line of text is no command. -/
inductive CommandError
  /-- The line has no word. -/
  | missingSubcommand
  /-- No command begins with this word. -/
  | unknownSubcommand (word : String)
  /-- A definition lacks its name or its expression. -/
  | incompleteSet
  /-- A view lacks its target. -/
  | viewWithoutTarget
  /-- A table has no targets. -/
  | tableWithoutTargets
  /-- A map has no target, or more than one. -/
  | mapTargets
  /-- A name has to be a single character. -/
  | longName (word : String)
deriving DecidableEq

namespace CommandError

/-- The reason in words. -/
def message : CommandError → String
  | .missingSubcommand => "missing subcommand"
  | .unknownSubcommand word => "unknown subcommand '" ++ word ++ "'"
  | .incompleteSet => "set requires a name and an expression"
  | .viewWithoutTarget => "view requires a target"
  | .tableWithoutTargets => "table requires at least one target"
  | .mapTargets => "kmap requires exactly one target"
  | .longName word => "'" ++ word ++ "' is not a single-letter name"

end CommandError

/-- Why a request is refused. -/
inductive Error
  /-- An expression holds a character that no token begins with. -/
  | illegalCharacter (c : Char)
  /-- The name of a function has to be a letter. -/
  | invalidName (c : Char)
  /-- No function of that name is stored. -/
  | notFound (c : Char)
  /-- `function` refers to `missing`, which is not stored. -/
  | missingNestedFunction (function missing : Letter)
  /-- Following references along `path` comes back to a name on it. -/
  | cyclicReference (path : List Letter)
  /-- A table's targets have no common variables: `found` is not among `expected`. -/
  | variableMismatch (expected found : List Letter)
  /-- Written out, `function` has more tokens than the limit. -/
  | statementTooLarge (function : Letter) (tokens limit : Nat)
  /-- A table has more variables than the limit. -/
  | tableTooLarge (vars limit : Nat)
  /-- The statement of `function` is no expression. -/
  | malformed (function : Letter) (reason : ParseError)
  /-- A line of text is no command. -/
  | invalidCommand (reason : CommandError)
deriving DecidableEq

namespace Error

/-- How it is said that a function has no value, for a reason in words. -/
def malformedText (function : Letter) (reason : String) : String :=
  "Function '" ++ function.toText ++ "' could not be evaluated: " ++ reason

/-- How it is said that a command is refused, for a reason in words. -/
def invalidCommandText (reason : String) : String :=
  "Invalid boolean subcommand: " ++ reason

/-- The reason in words. -/
def message : Error → String
  | .illegalCharacter c => "Invalid expression provided: Found illegal char '" ++ c.toString ++ "'"
  | .invalidName c => "Invalid function name '" ++ c.toString ++ "': names must be letters"
  | .notFound c => "Non-existent function '" ++ c.toString ++ "' provided"
  | .missingNestedFunction function missing =>
    "Function '" ++ function.toText ++ "' contains non-existent nested function '" ++
      missing.toText ++ "'"
  | .cyclicReference path => "Found self-referring expressions: " ++ Letter.join " -> " path
  | .variableMismatch expected found =>
    "Targets contained mismatched variables: [" ++ Letter.join ", " expected ++ "] vs [" ++
      Letter.join ", " found ++ "]"
  | .statementTooLarge function tokens limit =>
    "Function '" ++ function.toText ++ "' expands to " ++ toString tokens ++
      " tokens (limit is " ++ toString limit ++ ")"
  | .tableTooLarge vars limit =>
    "Truth table over " ++ toString vars ++ " variables is too large (limit is " ++
      toString limit ++ ")"
  | .malformed function reason => malformedText function reason.message
  | .invalidCommand reason => invalidCommandText reason.message

end Error

/-- The letter that a character is, or the refusal of it as a name. -/
def Letter.named (c : Char) : Except Error Letter :=
  match Letter.ofChar? c with
  | some l => .ok l
  | none => .error (.invalidName c)

end Switching
