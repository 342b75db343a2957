/-
The text of a tree is read back as the tree.

The text shows the connectives and the negation by signs that cannot be typed; with the
characters that can be typed in their place it is an expression like any other.  Its
tokens are written down here once more, by recursion over the tree, as `Expr.tokens`,
and three things are said of them.

Scanning the text gives these tokens and no others.  A conjunction is put in where an
operand begins behind the end of another, and the tokens of a tree are spaced: in them an
operand begins at the front, behind a negation, behind an opening parenthesis or behind a
connective, none of which ends one.  What is typed for the tokens of a spaced statement,
one after another, is read as the statement, be it of a tree or not.

The grammar derives the tree from its tokens.  Each binary node opens a parenthesis and
each negation stays open to the end of its operand, so what is open at a variable is the
number of nodes above it, and the largest number of them is one less than the depth.

If that is more than may be open at once, the reader stops inside.  What it has read
until then is complete operands, so the fault it stops at can only be the nesting.
-/
import Switching.Definition
import Switching.Proofs.Parsing
import Switching.Proofs.Spacing

namespace Switching

namespace Statement

/-- A token is added as it is if no operand ends where it begins one. -/
theorem push_eq_cons {read : List Token} {t : Token}
    (h : ∀ last ∈ read.head?, juxtaposed last t = false) : push read t = t :: read := by
  cases read with
  | nil => rfl
  | cons last read =>
      have hlast : juxtaposed last t = false := h last rfl
      rw [push, hlast]
      rfl

end Statement

namespace Letter

/-- A letter is none of the characters that have a code outside of the alphabet. -/
theorem char_ne (v : Letter) {c : Char} (h : c.isAlpha = false) : v.char ≠ c := by
  rintro rfl
  exact Bool.false_ne_true (h.symm.trans v.isAlpha)

theorem tokenOf?_char (v : Letter) : Statement.tokenOf? v.char = some (.var v) := by
  unfold Statement.tokenOf?
  split
  case h_7 => rw [Letter.ofChar?_char, Option.map_some]
  all_goals
    rename_i h
    exact absurd h (v.char_ne (by decide))

end Letter

namespace Connective

/-- The character that is typed for the connective. -/
def key : Connective → Char
  | .or => '+'
  | .xor => '^'
  | .and => '*'

theorem key_ne_dollar (op : Connective) : op.key ≠ '$' := by
  cases op <;> decide

theorem tokenOf?_key (op : Connective) : Statement.tokenOf? op.key = some (.op op) := by
  cases op <;> rfl

end Connective

/-! ### Typing tokens -/

namespace Token

/-- The characters that are typed for a token. -/
def keys : Token → List Char
  | .var v => [v.char]
  | .ref f => ['$', f.char]
  | .not => ['!']
  | .op c => [c.key]
  | .lparen => ['(']
  | .rparen => [')']

/-- A token other than a reference is typed as one character, which is read as it. -/
theorem keys_cases (t : Token) :
    (∃ f, t = .ref f) ∨ ∃ c, t.keys = [c] ∧ c ≠ '$' ∧ Statement.tokenOf? c = some t := by
  cases t with
  | ref f => exact .inl ⟨f, rfl⟩
  | var v => exact .inr ⟨v.char, rfl, v.char_ne (by decide), v.tokenOf?_char⟩
  | op op => exact .inr ⟨op.key, rfl, op.key_ne_dollar, op.tokenOf?_key⟩
  | not | lparen | rparen => exact .inr ⟨_, rfl, by decide, rfl⟩

end Token

namespace Statement

variable {s : Statement} {read : List Token}

/-- Reading what is typed for a token adds the token. -/
theorem scanFrom_keys_append (read : List Token) (t : Token) (cs : List Char) :
    scanFrom read (t.keys ++ cs) = scanFrom (push read t) cs := by
  rcases t.keys_cases with ⟨f, rfl⟩ | ⟨c, hkeys, hc, ht⟩
  · exact scanFrom_ref f read cs
  · rw [hkeys]
    exact scanFrom_cons hc ht read cs

theorem scanFrom_keys {t : Token} (h : ∀ last ∈ read.head?, juxtaposed last t = false)
    (cs : List Char) : scanFrom read (t.keys ++ cs) = scanFrom (t :: read) cs := by
  rw [scanFrom_keys_append, push_eq_cons h]

/-- **Reading what is typed for the tokens of a spaced statement gives the statement.** -/
theorem scanFrom_flatMap_keys (h : Spaced (read.reverse ++ s)) :
    scanFrom read (s.flatMap Token.keys) = .ok (read.reverse ++ s) := by
  induction s generalizing read with
  | nil => rw [List.flatMap_nil, List.append_nil, scanFrom]
  | cons t s ih =>
      have happart : ∀ last ∈ read.head?, juxtaposed last t = false := by
        intro last hlast
        rw [← List.getLast?_reverse] at hlast
        exact (List.isChain_append.mp h).2.2 last hlast t rfl
      have hmoved : read.reverse ++ t :: s = (t :: read).reverse ++ s := by simp
      rw [hmoved] at h
      rw [List.flatMap_cons, scanFrom_keys happart, ih h, hmoved]

end Statement

namespace Expr

/-- The character that is typed for one that is shown. -/
def typed : Char → Char
  | '¬' => '!'
  | '∨' => '+'
  | '⊕' => '^'
  | '∧' => '*'
  | c => c

/-- The text of a tree with the characters that are typed for those that are shown. -/
def typedText (e : Expr) : String :=
  e.toText.map typed

/-- The tokens of the text of a tree. -/
def tokens : Expr → Statement
  | .var v => [.var v]
  | .not e => .not :: e.tokens
  | .binary op l r => .lparen :: (l.tokens ++ .op op :: r.tokens ++ [.rparen])

/-! ### Scanning -/

theorem typed_char (v : Letter) : typed v.char = v.char := by
  unfold typed
  split
  case h_5 => rfl
  all_goals
    rename_i h
    exact absurd h (v.char_ne (by decide))

/-- A blank stands on either side of a connective and nowhere else. -/
theorem strip_typedText (e : Expr) :
    Text.strip e.typedText.toList = e.tokens.flatMap Token.keys := by
  rw [typedText, String.toList_map]
  induction e with
  | var v =>
      simp [toText, Letter.toText, typed_char, Text.strip, v.isBlank_char, tokens, Token.keys]
  | not e ih => simp [toText, tokens, Token.keys, ← ih, Text.strip, typed, Text.isBlank]
  | binary op l r ihl ihr =>
      cases op <;>
        simp [toText, tokens, Token.keys, ← ihl, ← ihr, Text.strip, typed, Text.isBlank,
          Connective.sign, Connective.key]

/-- No operand follows directly on another in a tree. -/
theorem spaced_tokens (e : Expr) : e.tokens.Spaced := by
  induction e with
  | var v => exact .singleton _
  | not e ih => exact List.IsChain.cons ih fun t _ => rfl
  | binary op l r ihl ihr =>
      have hright : Statement.Spaced (.op op :: r.tokens) := List.IsChain.cons ihr fun t _ => rfl
      have hboth : Statement.Spaced (l.tokens ++ .op op :: r.tokens) := by
        refine List.IsChain.append ihl hright fun t _ u hu => ?_
        cases hu
        exact Statement.juxtaposed_of_not_starts rfl t
      exact hboth.enclosed

/-- **Scanning the text of a tree puts no conjunction in.** -/
theorem scan_typedText (e : Expr) : Statement.scan e.typedText = .ok e.tokens := by
  rw [Statement.scan, strip_typedText]
  exact Statement.scanFrom_flatMap_keys e.spaced_tokens

/-! ### Reading -/

theorem depth_pos (e : Expr) : 0 < e.depth := by
  cases e <;> simp [depth]

/-- **The grammar derives a tree from its tokens**, and what is open at once in them is
what lies above the deepest variable. -/
theorem derives_tokens (e : Expr) : ∀ level, Derives level e.tokens e (e.depth - 1) := by
  induction e with
  | var v => exact Derives.of_tightest (.var v)
  | not e ih =>
      have hopen : e.not.depth - 1 = e.depth - 1 + 1 := by
        have := e.depth_pos
        rw [depth]
        omega
      rw [hopen]
      exact Derives.of_tightest (.not (ih none))
  | binary op l r ihl ihr =>
      have hopen : (binary op l r).depth - 1 = max (l.depth - 1) (r.depth - 1) + 1 := by
        have := l.depth_pos
        rw [depth]
        omega
      have hchain := Derives.next (ihl (some op)) (ihr op.tighter)
      rw [hopen]
      exact Derives.of_tightest (.group hchain.to_loosest)

/-- Reading an operand off the tokens ends where one parenthesis or negation too many is
open. -/
def Refuses (total : Nat) (level : Option Connective) (nesting : Nat) (s : Statement) : Prop :=
  ∃ position, operand total level nesting s = .error (.tooNested position)

section

variable {total nesting : Nat} {level : Option Connective} {op : Connective}
  {s rest : Statement} {l : Expr}

theorem refuses_not (h : nesting < maxNesting → Refuses total none (nesting + 1) s) :
    Refuses total none nesting (.not :: s) := by
  by_cases hn : nesting < maxNesting
  · obtain ⟨position, hread⟩ := h hn
    exact ⟨position, by rw [operand, if_pos hn, hread]⟩
  · exact ⟨_, by rw [operand, if_neg hn]⟩

theorem refuses_group (h : nesting < maxNesting → Refuses total (some .or) (nesting + 1) s) :
    Refuses total none nesting (.lparen :: s) := by
  by_cases hn : nesting < maxNesting
  · obtain ⟨position, hread⟩ := h hn
    exact ⟨position, by rw [operand, if_pos hn, hread]⟩
  · exact ⟨_, by rw [operand, if_neg hn]⟩

theorem refuses_first (op : Connective) (h : Refuses total op.tighter nesting s) :
    Refuses total (some op) nesting s := by
  obtain ⟨position, hread⟩ := h
  exact ⟨position, by rw [operand, hread]⟩

theorem refuses_next (hleft : Reads total op.tighter nesting s l (.op op :: rest))
    (hright : Refuses total op.tighter nesting rest) : Refuses total (some op) nesting s := by
  obtain ⟨⟨tree, left, hlt⟩, hread, -, rfl⟩ := hleft
  obtain ⟨position, hrest⟩ := hright
  refine ⟨position, ?_⟩
  rw [operand, hread]
  simp only
  rw [chain, if_pos rfl, hrest]

theorem refuses_of_tightest (h : Refuses total none nesting s) (level : Option Connective) :
    Refuses total level nesting s :=
  Connective.of_tightest (P := fun level => Refuses total level nesting s) refuses_first h level

theorem refuses_to_loosest (h : Refuses total (some op) nesting s) :
    Refuses total (some .or) nesting s :=
  Connective.to_loosest (P := fun level => Refuses total level nesting s) refuses_first h

end

/-- **A tree that goes deeper than may be open at once is refused for its nesting**,
whatever stands behind it. -/
theorem refuses_tokens (total : Nat) (e : Expr) : ∀ nesting rest, nesting ≤ maxNesting →
    maxNesting + 1 < nesting + e.depth → Refuses total none nesting (e.tokens ++ rest) := by
  induction e with
  | var v =>
      intro nesting rest hn hdeep
      rw [depth] at hdeep
      omega
  | not e ih =>
      intro nesting rest hn hdeep
      rw [depth] at hdeep
      exact refuses_not fun hlt => ih _ rest hlt (by omega)
  | binary op l r ihl ihr =>
      intro nesting rest hn hdeep
      rw [depth] at hdeep
      rw [tokens, List.cons_append, List.append_assoc, List.append_assoc, List.cons_append]
      refine refuses_group fun hlt => ?_
      by_cases hl : maxNesting + 1 < nesting + 1 + l.depth
      · exact refuses_of_tightest (ihl _ _ hlt hl) _
      -- The left operand is read as a whole, and the reader comes to the right one.
      · have hfits : l.depth ≤ maxDepth := by
          simp only [maxDepth, maxNesting] at *
          omega
        have hopen : nesting + 1 + (l.depth - 1) ≤ maxNesting := by
          have := l.depth_pos
          omega
        have hright : Refuses total none (nesting + 1) (r.tokens ++ ([.rparen] ++ rest)) :=
          ihr _ _ hlt (by omega)
        have hleft := (read_complete total (l.derives_tokens op.tighter) hfits).reads hopen
          (stops_tighter op (r.tokens ++ ([.rparen] ++ rest)))
        exact refuses_to_loosest (refuses_next hleft (refuses_of_tightest hright _))

/-- The tokens of a tree that goes no deeper than may be open at once are read as it. -/
theorem parse_tokens {e : Expr} (h : e.depth ≤ maxNesting + 1) : parse e.tokens = .ok e := by
  refine parse_eq_ok_iff.mpr ⟨_, e.derives_tokens _, by omega, ?_⟩
  simp only [maxDepth, maxNesting] at *
  omega

/-- The tokens of a tree that goes deeper are refused for their nesting. -/
theorem parse_tokens_of_deep {e : Expr} (h : maxNesting + 1 < e.depth) :
    ∃ position, parse e.tokens = .error (.tooNested position) := by
  obtain ⟨position, hread⟩ := refuses_of_tightest
    (refuses_tokens e.tokens.length e 0 [] (Nat.zero_le _) (by omega)) (some .or)
  rw [List.append_nil] at hread
  refine ⟨position, ?_⟩
  unfold parse
  split
  case h_1 hnil => exact absurd hnil (e.derives_tokens none).ne_nil
  case h_2 => rw [hread]

/-- **The text of a tree compiles, under every name, and is read back as the same tree if
nowhere more than `maxNesting` nodes lie above a variable, and refused for its nesting
otherwise.**  It is never read as another tree. -/
theorem compile_typedText (name : Letter) (e : Expr) :
    ∃ d, Definition.compile name.char e.typedText = .ok d ∧
      (e.depth ≤ maxNesting + 1 → parse d.statement = .ok e) ∧
      (maxNesting + 1 < e.depth →
        ∃ position, parse d.statement = .error (.tooNested position)) ∧
      ∀ e', parse d.statement = .ok e' → e' = e := by
  simp only [Definition.compile, Letter.named, Letter.ofChar?_char, scan_typedText,
    Except.ok.injEq, exists_eq_left']
  refine ⟨parse_tokens, parse_tokens_of_deep, ?_⟩
  intro e' h
  by_cases hdepth : e.depth ≤ maxNesting + 1
  · rw [parse_tokens hdepth, Except.ok.injEq] at h
    exact h.symm
  · obtain ⟨position, hrefused⟩ := parse_tokens_of_deep (Nat.lt_of_not_le hdepth)
    rw [hrefused] at h
    cases h

end Expr

end Switching
