/-
Laying out text in columns.
-/

namespace Switching.Text

/-- One character `n` times. -/
def rule (n : Nat) (c : Char) : String :=
  String.ofList (List.replicate n c)

/-- The text with spaces in front up to a width. -/
def alignRight (width : Nat) (text : String) : String :=
  rule (width - text.length) ' ' ++ text

/-- The text with spaces behind it up to a width. -/
def alignLeft (width : Nat) (text : String) : String :=
  text ++ rule (width - text.length) ' '

/-- A left and a right column with a bar between them. -/
def columns (left right : String) : String :=
  left ++ " │ " ++ right

/-- The line under the head of two columns of these widths. -/
def underline (left right : Nat) : String :=
  rule left '─' ++ "┼" ++ rule right '─'

/-- Lines one under another. -/
def stacked (lines : List String) : String :=
  "\n".intercalate lines

end Switching.Text
