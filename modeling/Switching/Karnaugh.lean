/-
Karnaugh maps.

A map shows the values of one function of up to four variables in a rectangle of cells.
The first half of the variables, rounded down, tells the rows apart and the others tell
the columns apart; both sides follow the reflected code, so that cells next to each
other, also across opposite edges, differ in a single variable.

The index of the row of the truth table that a cell shows is put together from the code
words of its two sides in a word of 64 bits, and what does not fit is lost.
-/
import Switching.Text.Blank
import Switching.Text.Layout
import Switching.TruthTable

namespace Switching

/-- The largest number of variables that a map has room for. -/
def maxMapVars : Nat := 4

/-- The rectangle of one function's values. -/
structure Grid where
  /-- The function shown. -/
  name : Letter
  /-- The variables that tell the rows apart. -/
  rowVars : List Letter
  /-- The variables that tell the columns apart. -/
  colVars : List Letter
  /-- The values of the function in the order of the truth table. -/
  values : List Bool
deriving DecidableEq

namespace Grid

/-- The number of rows. -/
def rows (g : Grid) : Nat :=
  Nat.pow 2 g.rowVars.length

/-- The number of columns. -/
def cols (g : Grid) : Nat :=
  Nat.pow 2 g.colVars.length

/-- The index of the assignment that a cell stands for. -/
def index (g : Grid) (row col : Nat) : Nat :=
  (gray row <<< g.colVars.length) % (maxCount + 1) ||| gray col

/-- The value in a cell, which there is none for outside the map. -/
def value? (g : Grid) (row col : Nat) : Option Bool :=
  g.values[g.index row col]?

/-- The value shown in a cell. -/
def value (g : Grid) (row col : Nat) : Bool :=
  (g.value? row col).getD false

/-! ### As text -/

/-- The two lists of variables, the rows' first. -/
def corner (g : Grid) : String :=
  String.ofList (g.rowVars.map Letter.char) ++ "\\" ++
    String.ofList (g.colVars.map Letter.char)

/-- Entries of one line, two spaces apart. -/
def spread (entries : List String) : String :=
  "  ".intercalate entries

/-- The code word at place `i` of a side that `width` variables tell apart. -/
def label (width i : Nat) : String :=
  bitsText (bits width (gray i))

/-- The line that labels the columns. -/
def header (g : Grid) : String :=
  Text.columns g.corner (spread ((List.range g.cols).map (label g.colVars.length)))

/-- The line under the labels. -/
def underline (g : Grid) : String :=
  Text.underline (g.corner.length + 1)
    (g.cols * g.colVars.length + (g.cols - 1) * 2 + 1)

/-- The values of one row, each as wide as the labels above it, up to the last digit. -/
def cells (g : Grid) (row : Nat) : String :=
  let entries := (List.range g.cols).map fun col =>
    Text.alignLeft g.colVars.length (bitsText [g.value row col])
  String.ofList (Text.trimEnd (spread entries).toList)

/-- The line for one row. -/
def rowText (g : Grid) (row : Nat) : String :=
  Text.columns (Text.alignRight g.corner.length (label g.rowVars.length row)) (g.cells row)

/-- The map as text. -/
def render (g : Grid) : String :=
  Text.stacked (g.header :: g.underline :: (List.range g.rows).map g.rowText)

end Grid

/-- The answer to a request for a map. -/
inductive KarnaughMap
  /-- The map. -/
  | grid (g : Grid)
  /-- A map over so many variables cannot be drawn. -/
  | undrawable (vars : Nat)
deriving DecidableEq

namespace KarnaughMap

/-- Maps are drawn for one variable to four. -/
def isDrawable (vars : Nat) : Bool :=
  vars != 0 && vars ≤ maxMapVars

/-- The map of a function whose values follow the order of the truth table. -/
def ofValues (name : Letter) (vars : List Letter) (values : List Bool) : Grid :=
  let split := vars.length / 2
  { name, rowVars := vars.take split, colVars := vars.drop split, values }

/-- The map of the target at a place of a table.  If the table has too few variables or
too many it does not matter whether there is such a target. -/
def ofTable? (t : TruthTable) (place : Nat) : Option KarnaughMap :=
  if isDrawable t.vars.size then
    match t.targets[place]?, t.column? place with
    | some target, some values =>
      some (.grid (ofValues target.definition.name t.vars.letters values))
    | _, _ => none
  else some (.undrawable t.vars.size)

/-- The map as text, or why there is none. -/
def render : KarnaughMap → String
  | .grid g => g.render
  | .undrawable vars => undrawableText vars

end KarnaughMap

end Switching
