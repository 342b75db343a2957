/-
Sessions.

A session is a registry and the limits within which it answers.  Only `define` and
`clear` answer with another session; every other request leaves the session it was
made of as it is, and so does a request that is refused, since it answers with none.

`execute` carries out a command of one line and gives the reply in pages.
-/
import Switching.Command
import Switching.Karnaugh
import Switching.Page
import Switching.TruthTable.Render

namespace Switching

/-- The limits of a session. -/
structure Config where
  /-- The largest number of variables of a truth table. -/
  maxTableVars : Nat := 8
  /-- The largest number of tokens of a definition written out. -/
  maxStatementTokens : Nat := Resolver.defaultLimit
  /-- The largest number of characters of a page. -/
  messageLimit : Nat := 2000
  /-- A view asked for in a command is written out without being told to. -/
  expandByDefault : Bool := false
deriving DecidableEq

/-- The functions of one conversation. -/
structure Session where
  /-- The limits. -/
  config : Config
  /-- The functions stored. -/
  registry : Registry

namespace Session

/-- A session with no functions. -/
def new (config : Config) : Session :=
  ⟨config, ∅⟩

/-- Resolves against the functions of the session within its limits. -/
def resolver (s : Session) : Resolver :=
  ⟨s.registry, s.config.maxStatementTokens⟩

/-! ### Storing -/

/-- Stores an expression under a name in place of what was stored there. -/
def define (s : Session) (name : Char) (expression : String) : Journaled Session := do
  .record (.defining name expression)
  let d ← .reported .define (do
    let d ← .ofExcept (Definition.compile name expression)
    .record (.compiled d)
    pure d)
  .record (.stored d)
  pure { s with registry := s.registry.define d }

/-- Removes every function. -/
def clear (s : Session) : Journaled Session := do
  .record (.clearing s.registry.size)
  pure { s with registry := ∅ }

/-! ### Showing -/

/-- Every function with its expression, one on a line. -/
def listing (s : Session) : String :=
  Text.stacked
    ("Displaying all functions" ::
      s.registry.toList.map fun d => d.name.toText ++ " -> " ++ d.expression)

/-- What there is to know about one definition. -/
def details (d : Definition) : String :=
  Text.stacked [
    "Displaying information at " ++ d.name.toText,
    " Expression -> " ++ d.expression,
    " Statement  -> " ++ d.statement.toText,
    " Variables  -> " ++ Letter.join ", " d.vars.letters,
    " Functions  -> " ++ Letter.join ", " d.nested.letters]

/-- Resolves the function of a name. -/
def resolved (s : Session) (name : Char) : Journaled Definition := do
  let stored ← .ofExcept (s.registry.lookup name)
  Resolver.journaled (s.resolver.resolve stored)

/-- What a view of a target shows. -/
def viewText (s : Session) (target : ViewTarget) (expand : Bool) : Journaled String :=
  match target with
  | .all => pure s.listing
  | .function name => do
    let d ← if expand then s.resolved name else .ofExcept (s.registry.lookup name)
    pure (details d)

/-- Shows one function, written out if `expand`, or lists all of them. -/
def view (s : Session) (target : ViewTarget) (expand : Bool) : Journaled String := do
  .record (.viewing target expand)
  .reported .view (s.viewText target expand)

/-! ### Tables and maps -/

/-- The truth table of the functions named. -/
def truthTable (s : Session) (targets : List Char) : Journaled TruthTable :=
  TruthTable.ofNames s.resolver (some s.config.maxTableVars) targets

/-- Shows the truth table of the functions named. -/
def table (s : Session) (targets : List Char) : Journaled String := do
  .record (.tabulating targets)
  let t ← .reported .table (s.truthTable targets)
  .record (.tabulated targets)
  pure ("Displaying truth table at " ++ Event.namesText targets ++ "\n" ++ t.render)

/-- The Karnaugh map of the function named.  One that would be too large is not
evaluated, and no other limit applies to the table behind it. -/
def karnaughMap (s : Session) (target : Char) : Journaled KarnaughMap := do
  let d ← s.resolved target
  if d.vars.size > maxMapVars then pure (.undrawable d.vars.size)
  else do
    let t ← TruthTable.ofDefinitions none [d]
    pure ((KarnaughMap.ofTable? t 0).getD (.undrawable t.vars.size))

/-- Shows the Karnaugh map of the function named, or says why it cannot be drawn. -/
def kmap (s : Session) (target : Char) : Journaled String := do
  .record (.mapping target)
  let map ← .reported .kmap (s.karnaughMap target)
  match map with
  | .grid g => pure ("Displaying k-map at " ++ target.toString ++ "\n" ++ g.render)
  | .undrawable vars => do
    .record (.undrawable target vars)
    pure (undrawableText vars)

/-! ### Commands -/

/-- A reply in pages of the session's size. -/
def pages (s : Session) (reply : String) : List String :=
  paginate reply s.config.messageLimit

/-- Carries out a command: the session afterwards and the reply in pages.  Storing and
removing reply with none. -/
def execute (s : Session) (command : Command) : Journaled (Session × List String) :=
  match command with
  | .set name expression => do
    let s ← s.define name expression
    pure (s, [])
  | .clear => do
    let s ← s.clear
    pure (s, [])
  | .view target expand => do
    let reply ← s.view target (expand || s.config.expandByDefault)
    pure (s, s.pages reply)
  | .table targets => do
    let reply ← s.table targets
    pure (s, s.pages reply)
  | .kmap target => do
    let reply ← s.kmap target
    pure (s, s.pages reply)

/-- Reads a line as a command and carries it out. -/
def executeLine (s : Session) (line : String) : Journaled (Session × List String) := do
  let command ← .ofExcept (Command.parse line)
  s.execute command

end Session

end Switching
