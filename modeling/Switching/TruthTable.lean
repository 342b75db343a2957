/-
Truth tables.

A table lists the values of one or more functions, its *targets*, under every
assignment of their variables.  The targets share the assignments, so the variables of
one of them must include those of all the others.

Only the variables and the targets are stored.  The row of an index is computed from
the index: its binary digits are the values of the variables in ascending order, the
first variable taking the most significant digit, so the rows in the order of their
indices run through all assignments in ascending order.
-/
import Switching.Bits
import Switching.Expr.Parser
import Switching.Resolution

namespace Switching

/-- A resolved function with the expression that its statement is. -/
structure Target where
  /-- The resolved definition. -/
  definition : Definition
  /-- Its expression. -/
  tree : Expr

/-- One assignment and the value of each target under it. -/
structure Row where
  /-- The place of the assignment among all. -/
  index : Nat
  /-- The value of each variable. -/
  inputs : List Bool
  /-- The value of each target. -/
  outputs : List Bool
deriving DecidableEq

/-- The values of some functions under every assignment of their variables. -/
structure TruthTable where
  /-- The variables of all targets. -/
  vars : LetterSet
  /-- The functions listed, in the order asked for. -/
  targets : List Target

namespace TruthTable

/-- The number of rows: one for each assignment. -/
def size (t : TruthTable) : Nat :=
  Nat.pow 2 t.vars.size

/-- The value that a list of variables and a list of their values give to a letter, if it is
one of the variables. -/
def valueOf? (vars : List Letter) (inputs : List Bool) (v : Letter) : Option Bool :=
  (vars.zip inputs).lookup v

@[simp] theorem valueOf?_cons_self {v : Letter} {vars : List Letter} {b : Bool}
    {inputs : List Bool} : valueOf? (v :: vars) (b :: inputs) v = some b := by
  rw [valueOf?, List.zip_cons_cons, List.lookup_cons_self]

theorem valueOf?_cons_of_ne {v w : Letter} {vars : List Letter} {b : Bool} {inputs : List Bool}
    (h : w ≠ v) : valueOf? (v :: vars) (b :: inputs) w = valueOf? vars inputs w := by
  rw [valueOf?, List.zip_cons_cons, List.lookup_cons, beq_eq_false_iff_ne.mpr h, valueOf?]

/-- The value of a letter, and `false` for what is no variable. -/
def valueOf (vars : List Letter) (inputs : List Bool) (v : Letter) : Bool :=
  (valueOf? vars inputs v).getD false

/-- The values of the variables in the row of an index. -/
def inputs (t : TruthTable) (index : Nat) : List Bool :=
  bits t.vars.size index

/-- The value of an expression in the row of an index. -/
def output (t : TruthTable) (index : Nat) (tree : Expr) : Bool :=
  tree.eval (valueOf t.vars.letters (t.inputs index))

/-- The row of an index. -/
def row (t : TruthTable) (index : Nat) : Row where
  index := index
  inputs := t.inputs index
  outputs := t.targets.map fun target => t.output index target.tree

/-- All rows in ascending order. -/
def rows (t : TruthTable) : List Row :=
  (List.range t.size).map t.row

/-- The values of the target at a place over all rows. -/
def column? (t : TruthTable) (place : Nat) : Option (List Bool) :=
  t.targets[place]?.map fun target => (List.range t.size).map fun index =>
    t.output index target.tree

/-! ### The common variables -/

/-- The variables of the last among the definitions that have the most variables. -/
def largest (ds : List Definition) : LetterSet :=
  ds.foldl (fun most d => if most.size ≤ d.vars.size then d.vars else most) ∅

/-- The largest set of variables, if it includes the variables of every definition. -/
def commonVars (ds : List Definition) : Except Error LetterSet :=
  let common := largest ds
  match ds.find? fun d => !d.vars.isSubset common with
  | none => .ok common
  | some d => .error (.variableMismatch common.letters d.vars.letters)

/-- Refuses tables with more variables than a limit, if one is set. -/
def checkSize (limit : Option Nat) (vars : Nat) : Except Error Unit :=
  match limit with
  | none => .ok ()
  | some limit => if vars ≤ limit then .ok () else .error (.tableTooLarge vars limit)

/-! ### Listing values -/

/-- Reads the statement of a resolved definition. -/
def readTarget (d : Definition) : Journaled Target :=
  match Expr.parse d.statement with
  | .ok tree => ⟨.ok ⟨d, tree⟩, [.parsed d.name tree.size]⟩
  | .error reason => ⟨.error (.malformed d.name reason), [.unparsable d reason]⟩

/-- Reads statements one after another up to the first that is no expression. -/
def readTargets : List Definition → Journaled (List Target)
  | [] => pure []
  | d :: ds => do
    let target ← readTarget d
    let targets ← readTargets ds
    pure (target :: targets)

/-- The table of definitions that are resolved already. -/
def ofDefinitions (limit : Option Nat) (ds : List Definition) : Journaled TruthTable := do
  let vars ← .ofExcept (commonVars ds)
  .ofExcept (checkSize limit vars.size)
  let targets ← readTargets ds
  .record (.enumerating ds.length vars.size)
  pure { vars, targets }

/-- The table of stored functions. -/
def ofNames (resolver : Resolver) (limit : Option Nat) (names : List Char) :
    Journaled TruthTable := do
  let ds ← Resolver.journaled (resolver.resolveNamed names)
  ofDefinitions limit ds

end TruthTable

end Switching
