/-
Characters in quotes.

The journal names characters that the user typed, and these can be anything.  They
stand in single quotes, and one that could be taken for something else is written with
a backslash: a short form for the usual controls, the quote and the backslash, and the
code in hexadecimal for whatever does not show by itself.
-/
import Switching.Text.Printable

namespace Switching.Text

/-- What stands between the quotes for a character. -/
def escaped (c : Char) : String :=
  match c with
  | '\x00' => "\\0"
  | '\t' => "\\t"
  | '\n' => "\\n"
  | '\r' => "\\r"
  | '\'' => "\\'"
  | '\\' => "\\\\"
  | c =>
    if isShown c then c.toString
    else "\\u\x7b" ++ String.ofList (Nat.toDigits 16 c.toNat) ++ "\x7d"

/-- A character in single quotes. -/
def quoted (c : Char) : String :=
  "'" ++ escaped c ++ "'"

/-- Characters in single quotes, as a list. -/
def quotedList (cs : List Char) : String :=
  "[" ++ ", ".intercalate (cs.map quoted) ++ "]"

end Switching.Text
