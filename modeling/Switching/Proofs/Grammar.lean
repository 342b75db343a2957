/-
The grammar of statements.

A statement is meant to be read by four rules, from the loosest connective to the
tightest:

    disjunction  ::=  exclusive (or exclusive)*
    exclusive    ::=  conjunction (xor conjunction)*
    conjunction  ::=  unary (and unary)*
    unary        ::=  not unary  |  variable  |  ( disjunction )

`Derives` says so without any reading going on, with two rules for each chain: what it
begins with and how it goes on.  A level is named by the connective of its chains and the
tightest by none.  A chain is written from the left, one connective and operand more at a
time, which is what makes its tree lean to the left.

The reader of `Switching.Expr.Parser` has one function for the three chains and asks
`Connective.tighter` what comes next.  The rules do not; that they are the same for each
connective is proved of them (`Derives.first`, `Derives.next`), and `Derives.levelwise` is
induction on derivations in these terms.

Beside the tree a derivation keeps how much was open at once.  A parenthesis is open up
to the one that closes it, and a negation up to the end of its operand; reading from
left to right, `n` is the largest number of them open at any place.  The bound on
nesting speaks of this number and of nothing else.
-/
import Switching.Expr
import Switching.Statement

namespace Switching

/-- `Derives level s e n`: the tokens `s` are an operand of the level, `e` is its tree,
and at most `n` parentheses and negations are open at once, `n` of them somewhere. -/
inductive Derives : Option Connective → Statement → Expr → Nat → Prop
  /-- A variable is an operand and opens nothing. -/
  | var (v : Letter) : Derives none [.var v] (.var v) 0
  /-- A negation is open while its operand is read. -/
  | not {s : Statement} {e : Expr} {n : Nat} (operand : Derives none s e n) :
      Derives none (.not :: s) (.not e) (n + 1)
  /-- A parenthesis has the tree of what it encloses. -/
  | group {s : Statement} {e : Expr} {n : Nat} (inner : Derives (some .or) s e n) :
      Derives none (.lparen :: (s ++ [.rparen])) e (n + 1)
  /-- A conjunction begins with a variable, a negation or a parenthesis. -/
  | conjunction {s : Statement} {e : Expr} {n : Nat} (unary : Derives none s e n) :
      Derives (some .and) s e n
  /-- A conjunction goes on with `and` and one more of them. -/
  | and {s t : Statement} {l r : Expr} {m n : Nat} (left : Derives (some .and) s l m)
      (right : Derives none t r n) :
      Derives (some .and) (s ++ .op .and :: t) (.binary .and l r) (max m n)
  /-- An exclusive disjunction begins with a conjunction. -/
  | exclusive {s : Statement} {e : Expr} {n : Nat} (conjunction : Derives (some .and) s e n) :
      Derives (some .xor) s e n
  /-- An exclusive disjunction goes on with `xor` and one more conjunction. -/
  | xor {s t : Statement} {l r : Expr} {m n : Nat} (left : Derives (some .xor) s l m)
      (right : Derives (some .and) t r n) :
      Derives (some .xor) (s ++ .op .xor :: t) (.binary .xor l r) (max m n)
  /-- A disjunction begins with an exclusive disjunction. -/
  | disjunction {s : Statement} {e : Expr} {n : Nat} (exclusive : Derives (some .xor) s e n) :
      Derives (some .or) s e n
  /-- A disjunction goes on with `or` and one more exclusive disjunction. -/
  | or {s t : Statement} {l r : Expr} {m n : Nat} (left : Derives (some .or) s l m)
      (right : Derives (some .xor) t r n) :
      Derives (some .or) (s ++ .op .or :: t) (.binary .or l r) (max m n)

namespace Connective

variable {P : Option Connective → Prop}

/-- What passes from each level to the next looser one passes from the tightest to all. -/
theorem of_tightest (loosen : ∀ op : Connective, P op.tighter → P (some op)) (h : P none) :
    ∀ level, P level := by
  have hand : P (some .and) := loosen .and h
  have hxor : P (some .xor) := loosen .xor hand
  intro level
  match level with
  | none => exact h
  | some .and => exact hand
  | some .xor => exact hxor
  | some .or => exact loosen .or hxor

/-- What passes from each level to the next looser one passes from all to the loosest. -/
theorem to_loosest (loosen : ∀ op : Connective, P op.tighter → P (some op)) {op : Connective}
    (h : P (some op)) : P (some .or) := by
  cases op with
  | or => exact h
  | xor => exact loosen .or h
  | and => exact loosen .or (loosen .xor h)

end Connective

namespace Derives

variable {level : Option Connective} {s : Statement} {e : Expr} {n : Nat}

/-! ### Level by level -/

/-- A chain begins with an operand of the next tighter level. -/
theorem first {op : Connective} (operand : Derives op.tighter s e n) : Derives (some op) s e n := by
  cases op with
  | or => exact .disjunction operand
  | xor => exact .exclusive operand
  | and => exact .conjunction operand

/-- A chain goes on with its connective and one more operand. -/
theorem next {op : Connective} {t : Statement} {l r : Expr} {m : Nat}
    (left : Derives (some op) s l m) (right : Derives op.tighter t r n) :
    Derives (some op) (s ++ .op op :: t) (.binary op l r) (max m n) := by
  cases op with
  | or => exact .or left right
  | xor => exact .xor left right
  | and => exact .and left right

/-- Induction on a derivation, with the three chains taken together. -/
@[elab_as_elim, induction_eliminator]
theorem levelwise {motive : ∀ level s e n, Derives level s e n → Prop}
    (var : ∀ v, motive none [.var v] (.var v) 0 (.var v))
    (not : ∀ {s e n} (operand : Derives none s e n), motive none s e n operand →
      motive none (.not :: s) (.not e) (n + 1) (.not operand))
    (group : ∀ {s e n} (inner : Derives (some .or) s e n), motive (some .or) s e n inner →
      motive none (.lparen :: (s ++ [.rparen])) e (n + 1) (.group inner))
    (first : ∀ {op s e n} (operand : Derives op.tighter s e n),
      motive op.tighter s e n operand → motive (some op) s e n (.first operand))
    (next : ∀ {op s t l r m n} (left : Derives (some op) s l m) (right : Derives op.tighter t r n),
      motive (some op) s l m left → motive op.tighter t r n right →
      motive (some op) (s ++ .op op :: t) (.binary op l r) (max m n) (.next left right))
    (h : Derives level s e n) : motive level s e n h := by
  induction h using Derives.rec with
  | var v => exact var v
  | not operand ih => exact not operand ih
  | group inner ih => exact group inner ih
  | conjunction unary ih | exclusive conjunction ih | disjunction exclusive ih => exact first _ ih
  | and left right ihl ihr | xor left right ihl ihr | or left right ihl ihr =>
      exact next left right ihl ihr

/-- What a derivation may end with, with the three chains taken together. -/
@[elab_as_elim, cases_eliminator]
theorem levelCases {motive : ∀ level s e n, Derives level s e n → Prop}
    (var : ∀ v, motive none [.var v] (.var v) 0 (.var v))
    (not : ∀ {s e n} (operand : Derives none s e n),
      motive none (.not :: s) (.not e) (n + 1) (.not operand))
    (group : ∀ {s e n} (inner : Derives (some .or) s e n),
      motive none (.lparen :: (s ++ [.rparen])) e (n + 1) (.group inner))
    (first : ∀ {op s e n} (operand : Derives op.tighter s e n),
      motive (some op) s e n (.first operand))
    (next : ∀ {op s t l r m n} (left : Derives (some op) s l m) (right : Derives op.tighter t r n),
      motive (some op) (s ++ .op op :: t) (.binary op l r) (max m n) (.next left right))
    (h : Derives level s e n) : motive level s e n h := by
  induction h with
  | var v => exact var v
  | not operand _ => exact not operand
  | group inner _ => exact group inner
  | first operand _ => exact first operand
  | next left right _ _ => exact next left right

/-! ### What is derived -/

/-- Nothing is read from no tokens. -/
theorem ne_nil (h : Derives level s e n) : s ≠ [] := by
  induction h with
  | var => simp
  | not => simp
  | group => simp
  | first _ ih => exact ih
  | next => simp

/-- The variables of the tree are those of the statement. -/
theorem mem_leaves_iff (h : Derives level s e n) {v : Letter} :
    v ∈ e.leaves ↔ Token.var v ∈ s := by
  induction h with
  | var w => simp [Expr.leaves]
  | not _ ih => simp [Expr.leaves, ih]
  | group _ ih => simp [ih]
  | first _ ih => exact ih
  | next _ _ ihl ihr => simp [Expr.leaves, ihl, ihr]

/-- A reference is no operand. -/
theorem ref_not_mem (h : Derives level s e n) : ∀ f, Token.ref f ∉ s := by
  induction h with
  | var => simp
  | not _ ih => simpa using ih
  | group _ ih => simpa using ih
  | first _ ih => exact ih
  | next _ _ ihl ihr => simp [ihl, ihr]

/-- A variable of the tree stands in the statement. -/
theorem var_mem_of_mem_leaves (h : Derives level s e n) {v : Letter} (hv : v ∈ e.leaves) :
    Token.var v ∈ s :=
  h.mem_leaves_iff.mp hv

/-- An operand of the tightest level is one of every level. -/
theorem of_tightest (h : Derives none s e n) (level : Option Connective) : Derives level s e n :=
  Connective.of_tightest (P := fun level => Derives level s e n) (fun _ => .first) h level

/-- An operand of a chain is one of the loosest chains. -/
theorem to_loosest {op : Connective} (h : Derives (some op) s e n) : Derives (some .or) s e n :=
  Connective.to_loosest (P := fun level => Derives level s e n) (fun _ => .first) h

end Derives

end Switching
