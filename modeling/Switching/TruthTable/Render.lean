/-
Truth tables as text.

Inputs stand to the left of a bar and outputs to its right, each in a column of its own
under the letter of its variable or function.
-/
import Switching.Text.Layout
import Switching.TruthTable

namespace Switching.TruthTable

/-- Characters with one space between neighbours. -/
def spaced (cs : List Char) : String :=
  " ".intercalate (cs.map Char.toString)

/-- The names of the targets. -/
def names (t : TruthTable) : List Letter :=
  t.targets.map fun target => target.definition.name

/-- The line that names the columns. -/
def header (t : TruthTable) : String :=
  Text.columns (spaced (t.vars.letters.map Letter.char)) (spaced (t.names.map Letter.char))

/-- The line for one row. -/
def rowText (r : Row) : String :=
  Text.columns (spaced (r.inputs.map bitChar)) (spaced (r.outputs.map bitChar))

/-- The table as text. -/
def render (t : TruthTable) : String :=
  Text.stacked
    (t.header :: Text.underline (2 * t.vars.size) (2 * t.targets.length) ::
      t.rows.map rowText)

end Switching.TruthTable
