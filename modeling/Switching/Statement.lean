/-
Statements.

A statement is a flat sequence of tokens; nothing says that it is a complete
expression.  A reference is replaced in it by the whole statement it stands for, put
into parentheses.  Replacement works on tokens and never on text, so a reference can
be mistaken for nothing else.

The size of a replacement is known before it is made.  Sizes are counted in words of
64 bits, and a size that does not fit has no count.
-/
import Switching.LetterSet
import Switching.Token

namespace Switching

/-- A sequence of tokens. -/
abbrev Statement := List Token

/-- The largest count that fits in a word of 64 bits. -/
def maxCount : Nat := 18446744073709551615

namespace Statement

/-- The tokens' spellings with one space between neighbours. -/
def toText (s : Statement) : String :=
  " ".intercalate (s.map Token.toText)

/-- The variables that occur in the statement. -/
def vars (s : Statement) : LetterSet :=
  .ofList (s.filterMap Token.varName?)

/-- The functions that the statement refers to. -/
def references (s : Statement) : LetterSet :=
  .ofList (s.filterMap Token.refName?)

theorem mem_vars {s : Statement} {v : Letter} : v ∈ s.vars ↔ Token.var v ∈ s := by
  simp only [vars, LetterSet.mem_ofList, List.mem_filterMap]
  constructor
  · rintro ⟨t, ht, h⟩
    cases t <;> simp_all [Token.varName?]
  · exact fun h => ⟨_, h, rfl⟩

theorem mem_references {s : Statement} {f : Letter} : f ∈ s.references ↔ Token.ref f ∈ s := by
  simp only [references, LetterSet.mem_ofList, List.mem_filterMap]
  constructor
  · rintro ⟨t, ht, h⟩
    cases t <;> simp_all [Token.refName?]
  · exact fun h => ⟨_, h, rfl⟩

/-- Some token of the statement is a reference. -/
def hasReferences (s : Statement) : Bool :=
  s.any fun t => t.refName?.isSome

theorem hasReferences_eq_false_iff {s : Statement} :
    s.hasReferences = false ↔ ∀ f, Token.ref f ∉ s := by
  rw [hasReferences, List.any_eq_false]
  constructor
  · intro h f hf
    exact h _ hf rfl
  · intro h t ht
    cases t with
    | ref f => exact absurd ht (h f)
    | _ => simp [Token.refName?]

/-! ### Replacing references -/

/-- How many tokens of the statement refer to `name`. -/
def occurrences (s : Statement) (name : Letter) : Nat :=
  s.count (.ref name)

/-- What takes the place of one token when references to `name` give way to `body`. -/
def replacement (name : Letter) (body : Statement) (t : Token) : Statement :=
  if t = .ref name then .lparen :: (body ++ [.rparen]) else [t]

/-- The statement with `body`, in parentheses, for every reference to `name`. -/
def substitute (s : Statement) (name : Letter) (body : Statement) : Statement :=
  s.flatMap (replacement name body)

/-- How many references to `name` are replaced, with the statement that results.  A statement
without any is given back at once. -/
def substituteCounted (s : Statement) (name : Letter) (body : Statement) : Nat × Statement :=
  if s.occurrences name = 0 then (0, s) else (s.occurrences name, s.substitute name body)

/-- The size of `s.substitute name body` if it can be counted: each reference gives way
to the tokens of `body` and two more. -/
def substitutedSize? (s : Statement) (name : Letter) (body : Statement) : Option Nat :=
  let size := s.occurrences name * (body.length + 1) + s.length
  if size ≤ maxCount then some size else none

end Statement

end Switching
