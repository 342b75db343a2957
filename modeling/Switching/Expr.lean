/-
Boolean expressions.

An expression is a tree over single-letter variables.  Its value depends on the
assignment of the variables alone, its depth bounds how far anything that walks the
tree has to go, and its text shows every grouping with parentheses.
-/
import Switching.LetterSet
import Switching.Token

namespace Switching

/-- A boolean expression. -/
inductive Expr
  /-- The value of a variable. -/
  | var (name : Letter)
  /-- The opposite of a value. -/
  | not (operand : Expr)
  /-- Two values joined by a connective. -/
  | binary (op : Connective) (left right : Expr)
deriving DecidableEq

namespace Expr

/-- The value of the expression where each variable has the value `assign` gives it. -/
def eval (assign : Letter → Bool) : Expr → Bool
  | .var v => assign v
  | .not e => !e.eval assign
  | .binary op l r => op.apply (l.eval assign) (r.eval assign)

/-- The variables of the expression from left to right, with repetitions. -/
def leaves : Expr → List Letter
  | .var v => [v]
  | .not e => e.leaves
  | .binary _ l r => l.leaves ++ r.leaves

/-- The variables that occur in the expression. -/
def vars (e : Expr) : LetterSet :=
  .ofList e.leaves

/-- The number of nodes. -/
def size : Expr → Nat
  | .var _ => 1
  | .not e => 1 + e.size
  | .binary _ l r => 1 + l.size + r.size

/-- The number of nodes on the longest way from the root to a variable. -/
def depth : Expr → Nat
  | .var _ => 1
  | .not e => e.depth + 1
  | .binary _ l r => max l.depth r.depth + 1

/-- The expression as text, each binary node in parentheses. -/
def toText : Expr → String
  | .var v => v.toText
  | .not e => "¬" ++ e.toText
  | .binary op l r => "(" ++ l.toText ++ " " ++ op.sign ++ " " ++ r.toText ++ ")"

end Expr

end Switching
