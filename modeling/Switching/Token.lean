/-
Tokens.

A statement is written with operands (variables and references to other functions),
the sign for negation, three binary connectives and parentheses.  Each token has one
spelling, the word or sign under which it is shown to the user, and two predicates say
where an operand can begin and where one can end: between such a pair the conjunction
may be left out.
-/
import Switching.Letter

namespace Switching

/-- A binary connective, the loosest one first. -/
inductive Connective
  | or
  | xor
  | and
deriving DecidableEq

namespace Connective

/-- The word for the connective in a statement. -/
def word : Connective → String
  | .or => "or"
  | .xor => "xor"
  | .and => "and"

/-- The sign for the connective in an expression tree. -/
def sign : Connective → String
  | .or => "∨"
  | .xor => "⊕"
  | .and => "∧"

/-- The truth function that the connective stands for. -/
def apply : Connective → Bool → Bool → Bool
  | .or, a, b => a || b
  | .xor, a, b => a ^^ b
  | .and, a, b => a && b

/-- The connective that binds next tighter; none binds tighter than conjunction. -/
def tighter : Connective → Option Connective
  | .or => some .xor
  | .xor => some .and
  | .and => none

/-- How many connectives bind tighter. -/
def rank : Connective → Nat
  | .or => 2
  | .xor => 1
  | .and => 0

end Connective

/-- One token of a statement. -/
inductive Token
  /-- A variable. -/
  | var (name : Letter)
  /-- A reference to the function of that name. -/
  | ref (name : Letter)
  /-- Negation of the operand that follows. -/
  | not
  /-- A connective between two operands. -/
  | op (connective : Connective)
  /-- An opening parenthesis. -/
  | lparen
  /-- A closing parenthesis. -/
  | rparen
deriving DecidableEq

namespace Token

/-- The spelling of a token. -/
def toText : Token → String
  | .var v => v.toText
  | .ref f => "$" ++ f.toText
  | .not => "not"
  | .op c => c.word
  | .lparen => "("
  | .rparen => ")"

/-- An operand can end with this token. -/
def endsOperand : Token → Bool
  | .var _ | .ref _ | .rparen => true
  | _ => false

/-- An operand can begin with this token. -/
def startsOperand : Token → Bool
  | .var _ | .ref _ | .lparen | .not => true
  | _ => false

/-- The variable that the token is, if it is one. -/
def varName? : Token → Option Letter
  | .var v => some v
  | _ => none

/-- The function that the token refers to, if it is a reference. -/
def refName? : Token → Option Letter
  | .ref f => some f
  | _ => none

end Token

end Switching
