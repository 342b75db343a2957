/-
From statements to expressions.

Negation binds tighter than conjunction, conjunction tighter than exclusive
disjunction, and that tighter than disjunction; operators of one kind group to the
left.  So an operand at some level is a chain of operands of the next tighter level,
and at the tightest level it is a variable, a negated operand or a parenthesis.

Every function below takes the tokens that are still to be read and gives back those
that it left over, with the proof that it left fewer.  That is all the termination
argument there is, and the number of tokens left also tells the position of a fault.
Nesting and depth are bounded on the way, so that no later walk over the tree can go
deeper than `maxDepth`.
-/
import Switching.Error
import Switching.Expr
import Switching.Statement

namespace Switching.Expr

/-- An expression with its depth, which is known here without a walk over the tree. -/
structure Measured where
  /-- The expression. -/
  expr : Expr
  /-- Its depth. -/
  depth : Nat
  /-- The depth is the right one. -/
  depth_eq : depth = expr.depth

/-- How many of `total` tokens have been read when `rest` is left of them. -/
def consumed (total : Nat) (rest : Statement) : Nat :=
  total - rest.length

namespace Measured

/-- A variable has depth one. -/
def var (v : Letter) : Measured :=
  ⟨.var v, 1, rfl⟩

/-- The negation of an expression, unless that is too deep. -/
def negated (m : Measured) (total : Nat) (rest : Statement) : Except ParseError Measured :=
  if m.depth < maxDepth then
    .ok ⟨.not m.expr, m.depth + 1, by simp [Expr.depth, m.depth_eq]⟩
  else .error (.tooDeep (consumed total rest))

/-- Two expressions joined by a connective, unless the result is too deep. -/
def joined (op : Connective) (l r : Measured) (total : Nat) (rest : Statement) :
    Except ParseError Measured :=
  if max l.depth r.depth < maxDepth then
    .ok ⟨.binary op l.expr r.expr, max l.depth r.depth + 1, by
      simp [Expr.depth, l.depth_eq, r.depth_eq]⟩
  else .error (.tooDeep (consumed total rest))

end Measured

/-- What has been read from fewer than `bound` tokens. -/
structure Parsed (bound : Nat) where
  /-- The expression read. -/
  tree : Measured
  /-- The tokens left over. -/
  rest : Statement
  /-- At least one token has been read. -/
  rest_lt : rest.length < bound

/-- Takes the parenthesis that closes what has just been read. -/
def Parsed.closed {bound : Nat} (total : Nat) (inner : Parsed bound) :
    Except ParseError (Parsed (bound + 1)) :=
  match inner.rest, inner.rest_lt with
  | .rparen :: after, h =>
    .ok ⟨inner.tree, after, Nat.lt_trans (Nat.lt_succ_self _) (Nat.lt_succ_of_lt h)⟩
  | after, _ => .error (.unclosed (consumed total after + 1))

/-- How many levels lie below one: a level is named by its connective, the tightest by
none. -/
def levelRank : Option Connective → Nat
  | some op => op.rank + 1
  | none => 0

theorem levelRank_tighter (op : Connective) : levelRank op.tighter < levelRank (some op) := by
  cases op <;> decide

mutual

/-- Reads one operand of a level inside `nesting` open parentheses and negations. -/
def operand (total : Nat) (level : Option Connective) (nesting : Nat) (s : Statement) :
    Except ParseError (Parsed s.length) :=
  match level with
  | some op =>
    match operand total op.tighter nesting s with
    | .error e => .error e
    | .ok first => chain total op nesting first.tree first.rest s.length first.rest_lt
  | none =>
    match s with
    | [] => .error .missingOperand
    | .var v :: rest => .ok ⟨.var v, rest, Nat.lt_succ_self _⟩
    | .not :: rest =>
      if nesting < maxNesting then
        match operand total none (nesting + 1) rest with
        | .error e => .error e
        | .ok inner =>
          match inner.tree.negated total inner.rest with
          | .error e => .error e
          | .ok tree => .ok ⟨tree, inner.rest, Nat.lt_succ_of_lt inner.rest_lt⟩
      else .error (.tooNested (consumed total rest))
    | .lparen :: rest =>
      if nesting < maxNesting then
        match operand total (some .or) (nesting + 1) rest with
        | .error e => .error e
        | .ok inner => inner.closed total
      else .error (.tooNested (consumed total rest))
    | .ref f :: _ => .error (.unresolved f)
    | t :: rest => .error (.noOperand t (consumed total rest))
termination_by (s.length, levelRank level)
decreasing_by
  · exact Prod.Lex.right _ (levelRank_tighter op)
  · exact Prod.Lex.left _ _ first.rest_lt
  · exact Prod.Lex.left _ _ (Nat.lt_succ_self _)
  · exact Prod.Lex.left _ _ (Nat.lt_succ_self _)

/-- Reads the rest of a chain of one connective whose operands so far are joined in
`left`. -/
def chain (total : Nat) (op : Connective) (nesting : Nat) (left : Measured) (s : Statement)
    (bound : Nat) (h : s.length < bound) : Except ParseError (Parsed bound) :=
  match s, h with
  | .op c :: rest, h =>
    if c = op then
      match operand total op.tighter nesting rest with
      | .error e => .error e
      | .ok right =>
        match Measured.joined op left right.tree total right.rest with
        | .error e => .error e
        | .ok tree =>
          chain total op nesting tree right.rest bound
            (Nat.lt_trans right.rest_lt (Nat.lt_of_succ_lt h))
    else .ok ⟨left, .op c :: rest, h⟩
  | rest, h => .ok ⟨left, rest, h⟩
termination_by (s.length, 0)
decreasing_by
  · exact Prod.Lex.left _ _ (Nat.lt_succ_self _)
  · exact Prod.Lex.left _ _ (Nat.lt_succ_of_lt right.rest_lt)

end

/-- Reads a whole statement as one expression. -/
def parse (s : Statement) : Except ParseError Expr :=
  match s with
  | [] => .error .empty
  | s =>
    match operand s.length (some .or) 0 s with
    | .error e => .error e
    | .ok ⟨tree, [], _⟩ => .ok tree.expr
    | .ok ⟨_, t :: rest, _⟩ => .error (.leftover t (consumed s.length (t :: rest) + 1))

end Switching.Expr
