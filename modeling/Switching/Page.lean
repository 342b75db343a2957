/-
Pages.

A long reply is sent in pages, which break only between lines.  A page takes lines as
long as it keeps within the limit; a line longer than the limit is a page of its own.
A page holds at least one character, so a blank line where a page would begin is
passed over.
-/
import Switching.Text.Line

namespace Switching

/-- The beginning of a page, whose length is known here without counting. -/
structure Draft where
  /-- The text so far. -/
  text : String
  /-- How many characters it has. -/
  size : Nat
  /-- The count is the right one. -/
  size_eq : size = text.length

namespace Draft

/-- A page that begins with a line. -/
def start (line : List Char) : Draft :=
  ⟨String.ofList line, line.length, by simp⟩

/-- The page with one more line. -/
def add (d : Draft) (line : List Char) : Draft :=
  ⟨d.text ++ "\n" ++ String.ofList line, d.size + 1 + line.length, by
    simp [d.size_eq, String.length_append, show "\n".length = 1 from rfl]⟩

end Draft

/-- The pages for a page begun and the lines after it. -/
def fillPages (limit : Nat) (draft : Draft) : List (List Char) → List String
  | [] => if draft.size = 0 then [] else [draft.text]
  | line :: lines =>
    if draft.size = 0 then fillPages limit (.start line) lines
    else if draft.size + 1 + line.length > limit then
      draft.text :: fillPages limit (.start line) lines
    else fillPages limit (draft.add line) lines

/-- A text in pages of at most `limit` characters, single lines excepted. -/
def paginate (text : String) (limit : Nat) : List String :=
  fillPages limit (.start []) (Text.lines text.toList)

end Switching
