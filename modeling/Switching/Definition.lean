/-
Definitions.

A definition gives a letter to an expression.  It keeps the expression as it was
written, less its blanks, beside the statement read from it, the variables the
statement mentions and the functions it refers to.  A definition that refers to no
function is resolved: its statement stands on its own.

Compiling looks neither at other definitions nor at the grammar.  A statement that is
no expression is found out when its values are asked for.
-/
import Switching.Statement.Scan

namespace Switching

/-- A named function. -/
structure Definition where
  /-- The name of the function. -/
  name : Letter
  /-- The expression without blanks. -/
  expression : String
  /-- The tokens of the expression, with the conjunctions that were left out. -/
  statement : Statement
  /-- The variables mentioned. -/
  vars : LetterSet
  /-- The functions referred to. -/
  nested : LetterSet
deriving DecidableEq

namespace Definition

/-- The definition refers to no function. -/
def isResolved (d : Definition) : Bool :=
  d.nested.isEmpty

/-- Compiles an expression under a name, which is looked at first. -/
def compile (name : Char) (expression : String) : Except Error Definition :=
  match Letter.named name with
  | .error e => .error e
  | .ok letter =>
    match Statement.scan expression with
    | .error e => .error e
    | .ok statement =>
      .ok {
        name := letter
        expression := String.ofList (Text.strip expression.toList)
        statement
        vars := statement.vars
        nested := statement.references }

/-- The definition with the statement of `body`, in parentheses, for every reference to
`target`, if the result has no more than `limit` tokens.  A size that cannot be counted
is taken for the largest count. -/
def inline (d : Definition) (limit : Nat) (target : Letter) (body : Definition) :
    Except Error Definition :=
  let tokens := (d.statement.substitutedSize? target body.statement).getD maxCount
  if tokens ≤ limit then
    .ok { d with
      statement := d.statement.substitute target body.statement
      vars := d.vars ∪ body.vars }
  else .error (.statementTooLarge d.name tokens limit)

end Definition

end Switching
