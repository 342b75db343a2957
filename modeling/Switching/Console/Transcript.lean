/-
Conversations.

The user types lines and each is answered before the next is read.  A prompt stands
before every line, a line of blanks is passed over, and the word `quit` ends the
conversation.  Every other line is a command, answered by its reply, by the reason for
refusing it, or by `ok` if it succeeds and has nothing to say.

A conversation is held over any lines that come one after another, wherever they come from
and wherever what is said goes to (`converse`).  Over the lines of a text that is known in
advance nothing more is to be known than the text that is shown: that is the `transcript`.
-/
import Switching.Console.Options

namespace Switching.Console

/-- What stands before every line. -/
def prompt : String := "> "

/-- The reply to a command that succeeds: its pages, each with an empty line behind it. -/
def replyText (pages : List String) : String :=
  if pages.isEmpty then "ok\n"
  else String.join (pages.map fun page => page ++ "\n\n")

/-- What one line leads to. -/
structure Answer where
  /-- The session afterwards. -/
  session : Session
  /-- The answer shown. -/
  text : String
  /-- What went into the journal. -/
  events : List Event

/-- The line ends the conversation. -/
def isQuit (line : List Char) : Bool :=
  Text.trim line == "quit".toList

/-- Answers a line that does not end the conversation. -/
def answer (s : Session) (line : List Char) : Answer :=
  if (Text.trim line).isEmpty then ⟨s, "", []⟩
  else
    let run := s.executeLine (String.ofList line)
    match run.outcome with
    | .ok (s, pages) => ⟨s, replyText pages, run.events⟩
    | .error e => ⟨s, e.message ++ "\n", run.events⟩

/-- Answers line after line.  What is to be seen is handed to `put` at once, and `note` takes
what went into the journal. -/
def converse {m : Type → Type} [Monad m] {ρ : Type} [ForIn m ρ (List Char)]
    (put : String → m Unit) (note : List Event → m Unit) (s : Session) (lines : ρ) : m Unit := do
  put prompt
  let mut s := s
  for line in lines do
    if isQuit line then break
    let a := answer s line
    note a.events
    put (a.text ++ prompt)
    s := a.session

/-- What is shown from the first line on, up to the line that ends the conversation. -/
def replies (s : Session) : List (List Char) → String
  | [] => ""
  | line :: lines =>
    if isQuit line then ""
    else
      let a := answer s line
      a.text ++ prompt ++ replies a.session lines

/-- A whole conversation as the user sees it. -/
def transcript (options : Options) (input : String) : String :=
  prompt ++ replies (.new options.config) (Text.lines input.toList)

/-- What a run of the program shows and the code it ends with. -/
structure Output where
  /-- The text shown. -/
  text : String
  /-- The exit code. -/
  code : Nat
deriving DecidableEq

/-- What is shown and which code ends the program instead of a conversation. -/
def Ending.output : Ending → Output
  | .help => ⟨helpText, 0⟩
  | .misuse => ⟨"", 2⟩

/-- Runs the program on a command line and everything that is typed. -/
def run (args : List String) (input : String) : Output :=
  match Options.parse args with
  | .ok options => ⟨transcript options input, 0⟩
  | .error ending => ending.output

end Switching.Console
