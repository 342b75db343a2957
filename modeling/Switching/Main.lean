/-
The program.

It reads lines until the conversation ends and shows each answer at once; the journal
goes to the standard error, as far as the command line asks for it.
-/
import Switching.Console.Transcript

namespace Switching.Console

/-- The name of a grade and its place in the order of the grades. -/
def grade : Level → String × Nat
  | .error => ("ERROR", 1)
  | .warn => ("WARN", 2)
  | .info => ("INFO", 3)
  | .debug => ("DEBUG", 4)

/-- Shows the events that the options ask for. -/
def showEvents (options : Options) (events : List Event) : IO Unit := do
  for e in events do
    let (name, place) := grade e.level
    if place ≤ options.verbosity then
      IO.eprintln ("[" ++ name ++ "] " ++ e.message)

/-- Lines as they are typed. -/
structure Typed where
  /-- Where they are typed. -/
  stream : IO.FS.Stream

/-- Hands on line after line, until there is none or no more are wanted.  There is no bound on
how many lines will be typed. -/
partial def Typed.read {α : Type} (typed : Typed) (state : α)
    (take : List Char → α → IO (ForInStep α)) : IO α := do
  let text ← typed.stream.getLine
  match Text.lines text.toList with
  | [] => return state
  | line :: _ =>
    match ← take line state with
    | .done state => return state
    | .yield state => typed.read state take

instance : ForIn IO Typed (List Char) where
  forIn := Typed.read

/-- Shows a text at once. -/
def put (output : IO.FS.Stream) (text : String) : IO Unit := do
  output.putStr text
  output.flush

end Switching.Console

open Switching Switching.Console in
/-- The entry point. -/
def main (args : List String) : IO UInt32 := do
  match Options.parse args with
  | .ok options =>
    let lines : Typed := ⟨← IO.getStdin⟩
    converse (put (← IO.getStdout)) (showEvents options) (.new options.config) lines
    return 0
  | .error ending =>
    let output := ending.output
    IO.print output.text
    return output.code.toUInt32
