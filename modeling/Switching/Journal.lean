/-
The journal.

Every request leaves a record of what was done on the way to its answer.  An event
keeps what it is about, `level` grades it and `message` puts it into words.

`Journaled α` is an answer of type `α`, or the reason for refusing it, together with
the events that led there.  Sequencing appends events and can do nothing else with
them: by the shape of `bind`, no answer depends on what has been recorded.
-/
import Switching.Command
import Switching.Definition
import Switching.Text.Quoted

namespace Switching

/-- How much attention an event deserves. -/
inductive Level
  | error
  | warn
  | info
  | debug
deriving DecidableEq

/-- The requests that can be refused. -/
inductive Operation
  | define
  | view
  | table
  | kmap
deriving DecidableEq

/-- The word for a request. -/
def Operation.word : Operation → String
  | .define => "define"
  | .view => "view"
  | .table => "table"
  | .kmap => "kmap"

/-- How it is said that a Karnaugh map over `vars` variables cannot be drawn. -/
def undrawableText (vars : Nat) : String :=
  if vars = 0 then
    "Your expression has no variables! I can only display k-maps with 1 to 4 variables"
  else
    "Your expression has too many variables! I can only display k-maps with 4 or less variables"

/-- Something that happened on the way to an answer. -/
inductive Event
  /-- An expression is to be stored under a name. -/
  | defining (name : Char) (expression : String)
  /-- A definition has been compiled. -/
  | compiled (d : Definition)
  /-- A definition is stored. -/
  | stored (d : Definition)
  /-- The functions, so many of them, are to be removed. -/
  | clearing (count : Nat)
  /-- Definitions are to be shown. -/
  | viewing (target : ViewTarget) (expand : Bool)
  /-- A table is to be shown. -/
  | tabulating (targets : List Char)
  /-- A Karnaugh map is to be shown. -/
  | mapping (target : Char)
  /-- A definition has been written out. -/
  | resolved (d : Definition)
  /-- The statement of a function has been read as an expression of so many nodes. -/
  | parsed (name : Letter) (size : Nat)
  /-- The statement of a function is no expression. -/
  | unparsable (d : Definition) (reason : ParseError)
  /-- The values of so many targets over so many variables are to be listed. -/
  | enumerating (targets vars : Nat)
  /-- A table is shown. -/
  | tabulated (targets : List Char)
  /-- A request is refused. -/
  | refused (operation : Operation) (reason : Error)
  /-- A Karnaugh map over so many variables cannot be drawn. -/
  | undrawable (target : Char) (vars : Nat)
deriving DecidableEq

namespace Event

/-- The grade of an event. -/
def level : Event → Level
  | .unparsable .. => .error
  | .refused .. | .undrawable .. => .warn
  | .defining .. | .clearing .. | .viewing .. | .tabulating .. | .mapping .. => .info
  | .compiled .. | .stored .. | .resolved .. | .parsed .. | .enumerating .. | .tabulated .. =>
    .debug

/-- A set of letters in the words of the journal. -/
def setText (s : LetterSet) : String :=
  "\x7b" ++ ", ".intercalate (s.letters.map fun l => "Symbol(" ++ Text.quoted l.char ++ ")") ++
    "\x7d"

/-- The target of a view in the words of the journal. -/
def targetText : ViewTarget → String
  | .all => "All"
  | .function name => "Function(" ++ Text.quoted name ++ ")"

/-- The two sets of a definition in the words of the journal. -/
def setsText (d : Definition) : String :=
  "(variables: " ++ setText d.vars ++ ", nested: " ++ setText d.nested ++ ")"

/-- Names one after another with one space between neighbours. -/
def namesText (names : List Char) : String :=
  " ".intercalate (names.map Char.toString)

/-- The event in words. -/
def message : Event → String
  | .defining name expression => "define '" ++ name.toString ++ "' = '" ++ expression ++ "'"
  | .compiled d =>
    "compiled '" ++ d.name.toText ++ "' = '" ++ d.expression ++ "' into '" ++
      d.statement.toText ++ "' " ++ setsText d
  | .stored d =>
    "set '" ++ d.name.toText ++ "' to statement '" ++ d.statement.toText ++ "' " ++ setsText d
  | .clearing count => "clear (" ++ toString count ++ " functions)"
  | .viewing target expand =>
    "view " ++ targetText target ++ " (expand: " ++ toString expand ++ ")"
  | .tabulating targets => "table " ++ Text.quotedList targets
  | .mapping target => "kmap '" ++ target.toString ++ "'"
  | .resolved d => "resolved '" ++ d.name.toText ++ "' into '" ++ d.statement.toText ++ "'"
  | .parsed name size =>
    "parsed '" ++ name.toText ++ "' into " ++ toString size ++ " nodes"
  | .unparsable d reason =>
    "statement '" ++ d.statement.toText ++ "' of function '" ++ d.name.toText ++
      "' failed to parse: " ++ reason.message
  | .enumerating targets vars =>
    "enumerating " ++ toString targets ++ " targets over " ++ toString vars ++ " variables"
  | .tabulated targets => "displayed table at '" ++ namesText targets ++ "'"
  | .refused operation reason => operation.word ++ " failed: " ++ reason.message
  | .undrawable target vars =>
    "kmap '" ++ target.toString ++ "': " ++ undrawableText vars

end Event

/-- An answer or a refusal, and the events on the way to it. -/
structure Journaled (α : Type) where
  /-- The answer, or the reason that there is none. -/
  outcome : Except Error α
  /-- The events in the order in which they happened. -/
  events : List Event

namespace Journaled

instance : Monad Journaled where
  pure a := ⟨.ok a, []⟩
  bind run next :=
    match run.outcome with
    | .error e => ⟨.error e, run.events⟩
    | .ok a =>
      let rest := next a
      ⟨rest.outcome, run.events ++ rest.events⟩

@[simp] theorem outcome_pure {α : Type} (a : α) : (pure a : Journaled α).outcome = .ok a := rfl

@[simp] theorem events_pure {α : Type} (a : α) : (pure a : Journaled α).events = [] := rfl

/-- The outcomes alone are sequenced as if there were no journal. -/
@[simp] theorem outcome_bind {α β : Type} (run : Journaled α) (next : α → Journaled β) :
    (run >>= next).outcome = run.outcome.bind fun a => (next a).outcome := by
  obtain ⟨outcome, events⟩ := run
  cases outcome <;> rfl

@[simp] theorem outcome_map {α β : Type} (f : α → β) (run : Journaled α) :
    (f <$> run).outcome = run.outcome.map f := by
  obtain ⟨outcome, events⟩ := run
  cases outcome <;> rfl

/-- What is recorded after a first part is appended to what that part recorded. -/
theorem events_bind {α β : Type} (run : Journaled α) (next : α → Journaled β) :
    (run >>= next).events = run.events ++
      match run.outcome with
      | .ok a => (next a).events
      | .error _ => [] := by
  obtain ⟨outcome, events⟩ := run
  cases outcome
  · exact (List.append_nil events).symm
  · rfl

/-- Nothing is recorded by sequencing itself, so the monad laws hold of the journal too. -/
instance : LawfulMonad Journaled :=
  LawfulMonad.mk' Journaled
    (by
      rintro α ⟨outcome, events⟩
      cases outcome
      · rfl
      · exact congrArg (Journaled.mk _) (List.append_nil events))
    (by intros; rfl)
    (by
      rintro α β γ ⟨outcome, events⟩ f g
      cases outcome with
      | error e => rfl
      | ok a => cases h : (f a).outcome <;> simp [bind, h])

/-- Answers as `result` does and records nothing. -/
def ofExcept {α : Type} (result : Except Error α) : Journaled α :=
  ⟨result, []⟩

@[simp] theorem outcome_ofExcept {α : Type} (result : Except Error α) :
    (ofExcept result).outcome = result := rfl

@[simp] theorem events_ofExcept {α : Type} (result : Except Error α) :
    (ofExcept result).events = [] := rfl

/-- Records an event. -/
def record (e : Event) : Journaled Unit :=
  ⟨.ok (), [e]⟩

@[simp] theorem outcome_record (e : Event) : (record e).outcome = .ok () := rfl

@[simp] theorem events_record (e : Event) : (record e).events = [e] := rfl

/-- Records at the end if a request has been refused. -/
def reported {α : Type} (operation : Operation) (run : Journaled α) : Journaled α where
  outcome := run.outcome
  events := run.events ++
    match run.outcome with
    | .ok _ => []
    | .error e => [.refused operation e]

@[simp] theorem outcome_reported {α : Type} (operation : Operation) (run : Journaled α) :
    (reported operation run).outcome = run.outcome := rfl

end Journaled

end Switching
