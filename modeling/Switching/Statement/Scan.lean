/-
Reading a statement from text.

Blanks are left out first, wherever they stand.  The rest is read from left to right,
one character for each token but two for a reference, and where an operand follows
directly on another the conjunction between them is put in.  The first character that
fits nothing is the reason for refusing the whole text; a `$` that no letter follows is
itself such a character.
-/
import Switching.Error
import Switching.Statement
import Switching.Text.Blank

namespace Switching

/-- No letter is a blank. -/
theorem Letter.isBlank_char (l : Letter) : Text.isBlank l.char = false := by
  have := Letter.code_of_isAlpha l.isAlpha
  simp only [Text.isBlank, Bool.or_eq_false_iff, Bool.and_eq_false_iff,
    decide_eq_false_iff_not, beq_eq_false_iff_ne, ne_eq]
  omega

namespace Statement

/-- The token that a character other than `$` is, if it is one. -/
def tokenOf? : Char → Option Token
  | '!' => some .not
  | '*' => some (.op .and)
  | '^' => some (.op .xor)
  | '+' => some (.op .or)
  | '(' => some .lparen
  | ')' => some .rparen
  | c => (Letter.ofChar? c).map .var

/-- The token ends an operand that `next` follows with no connective between. -/
def juxtaposed (token next : Token) : Bool :=
  token.endsOperand && next.startsOperand

/-- Adds a token to a statement held last token first, and the conjunction that was left
out before it. -/
def push (read : List Token) (next : Token) : List Token :=
  match read with
  | [] => [next]
  | last :: _ => if juxtaposed last next then next :: .op .and :: read else next :: read

/-- Reads on in a text without blanks; `read` holds the tokens so far, last one first. -/
def scanFrom (read : List Token) : List Char → Except Error Statement
  | [] => .ok read.reverse
  | '$' :: rest =>
    match rest with
    | [] => .error (.illegalCharacter '$')
    | c :: rest =>
      match Letter.ofChar? c with
      | some f => scanFrom (push read (.ref f)) rest
      | none => .error (.illegalCharacter '$')
  | c :: rest =>
    match tokenOf? c with
    | some t => scanFrom (push read t) rest
    | none => .error (.illegalCharacter c)

/-- A character that a token is adds the token. -/
theorem scanFrom_cons {c : Char} {t : Token} (hc : c ≠ '$') (ht : tokenOf? c = some t)
    (read : List Token) (cs : List Char) :
    scanFrom read (c :: cs) = scanFrom (push read t) cs := by
  rw [scanFrom]
  · simp only [ht]
  · exact hc

/-- The sign of a reference and a letter add the reference. -/
theorem scanFrom_ref (f : Letter) (read : List Token) (cs : List Char) :
    scanFrom read ('$' :: f.char :: cs) = scanFrom (push read (.ref f)) cs := by
  rw [scanFrom]
  simp only [Letter.ofChar?_char]

/-- A character that no token is ends the reading. -/
theorem scanFrom_cons_of_none {c : Char} (hc : c ≠ '$') (ht : tokenOf? c = none)
    (read : List Token) (cs : List Char) :
    scanFrom read (c :: cs) = .error (.illegalCharacter c) := by
  rw [scanFrom]
  · simp only [ht]
  · exact hc

/-- Reads a statement from the text of an expression. -/
def scan (text : String) : Except Error Statement :=
  scanFrom [] (Text.strip text.toList)

end Statement

end Switching
