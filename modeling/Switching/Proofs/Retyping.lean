/-
What is shown of a statement can be typed in again.

A statement is shown with words for the negation and the connectives, and a word cannot be
typed: its letters would be read as variables.  With the signs that are typed in place of
the four words the text is an expression, and reading gives the statement back, token by
token, with nothing put in and nothing lost.

Two things have to be seen for this.  A word is shown for nothing but the token that it is
the word of, since all else is shown with a single letter or begins with a sign.  And a
conjunction is put in only where an operand follows directly on another, which it does
nowhere in a statement that has been read from a text or written out.
-/
import Switching.Proofs.Canonical
import Switching.Proofs.Replies

namespace Switching

namespace Text

/-- What is typed for a word that is shown. -/
def typedWord (word : String) : String :=
  if word = "not" then "!"
  else if word = "and" then "*"
  else if word = "xor" then "^"
  else if word = "or" then "+"
  else word

/-- The words of a text with what is typed for each of them. -/
def typedWords (text : String) : String :=
  " ".intercalate ((words text.toList).map fun word => typedWord (String.ofList word))

/-- Nothing but the blanks between the words of a text is left out of it. -/
theorem strip_intercalate {parts : List String} :
    strip (" ".intercalate parts).toList = parts.flatMap fun part => strip part.toList := by
  have hspace : strip " ".toList = [] := rfl
  induction parts with
  | nil => rfl
  | cons part parts ih =>
      cases parts with
      | nil => simp [strip]
      | cons next parts =>
          rw [String.intercalate_cons_cons, String.toList_append, String.toList_append,
            List.flatMap_cons, ← ih]
          simp only [strip, List.filter_append] at hspace ⊢
          rw [hspace, List.append_nil]

end Text

namespace Token

theorem typedWord_toText (t : Token) : Text.typedWord t.toText = String.ofList t.keys := by
  cases t with
  | var v => simp [Text.typedWord, toText, Letter.toText, keys, ← String.toList_inj]
  | ref f => simp [Text.typedWord, toText, Letter.toText, keys, ← String.toList_inj]
  | op op => cases op <;> decide
  | not | lparen | rparen => decide

theorem strip_keys (t : Token) : Text.strip t.keys = t.keys := by
  refine Text.strip_eq_self fun c hc => ?_
  cases t with
  | var v =>
      rw [List.mem_singleton.mp hc]
      exact v.isBlank_char
  | ref f =>
      rcases List.mem_cons.mp hc with rfl | hc
      · decide
      · rw [List.mem_singleton.mp hc]
        exact f.isBlank_char
  | op op =>
      rw [List.mem_singleton.mp hc]
      cases op <;> decide
  | not | lparen | rparen =>
      rw [List.mem_singleton.mp hc]
      decide

end Token

namespace Statement

variable {s : Statement}

/-- Typed for what is shown of a statement are the characters of its tokens. -/
theorem strip_typedWords (s : Statement) :
    Text.strip (Text.typedWords s.toText).toList = s.flatMap Token.keys := by
  have hwords : Text.words s.toText.toList = (s.map Token.toText).map String.toList := by
    refine Text.words_intercalate fun word hword => ?_
    obtain ⟨t, -, rfl⟩ := List.mem_map.mp hword
    exact t.isWord_toText
  rw [Text.typedWords, hwords, Text.strip_intercalate, List.map_map, List.map_map,
    List.flatMap_map]
  congr 1
  funext t
  simp only [Function.comp_apply, String.ofList_toList, t.typedWord_toText, String.toList_ofList,
    t.strip_keys]

theorem scan_typedWords (h : s.Spaced) : scan (Text.typedWords s.toText) = .ok s := by
  rw [scan, strip_typedWords]
  exact scanFrom_flatMap_keys h

end Statement

namespace Definition

variable {d : Definition}

/-- The definition as if its statement had been typed. -/
def retyped (d : Definition) : Definition :=
  { d with expression := String.ofList (d.statement.flatMap Token.keys) }

/-- **What is shown of the statement of a definition, typed in under its name, compiles to the
definition** but for the expression. -/
theorem Canonical.compile_typedWords (h : d.Canonical) :
    compile d.name.char (Text.typedWords d.statement.toText) = .ok d.retyped := by
  refine compile_eq_ok_iff.mpr ⟨rfl, Statement.scan_typedWords h.spaced, ?_, ?_, ?_⟩
  · rw [Statement.strip_typedWords]
    rfl
  · ext v
    rw [Statement.mem_vars]
    exact h.mem_vars_iff v
  · ext f
    rw [Statement.mem_references]
    exact h.mem_nested_iff f

example : Text.typedWords Resolver.outer.statement.toText = "a * ! $f + b * $f" := by
  decide +kernel

end Definition

end Switching
