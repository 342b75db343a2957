/-
Writing definitions out.

To resolve a definition is to put the resolved statement of every function it refers to
in the place of the references.  Only copies are made; the registry stays as it is.

The names whose resolution waits for another are on the *path*.  A definition that is
not resolved and whose name is on the path already would never end, and is refused with
the path as evidence.  So every step down adds a new letter to the path, and since
there are 52 of them the recursion ends: `unvisited` counts those that are left.

Functions resolved on the way down are remembered, and one memory can serve several
requests.  It also keeps the trail of what was written out, in the order of completion.
-/
import Switching.Journal
import Switching.Registry

namespace Switching

/-- A registry to resolve against and the largest number of tokens of a result. -/
structure Resolver where
  /-- Where referenced functions are found. -/
  registry : Registry
  /-- The largest number of tokens that a statement may grow to. -/
  limit : Nat

/-- What is remembered from one resolution to the next. -/
structure Memory where
  /-- The functions resolved through a reference, each with its name, last one first. -/
  known : List (Letter × Definition)
  /-- The definitions written out, in the order of their completion. -/
  trail : List Definition

namespace Memory

/-- Nothing is remembered. -/
instance : EmptyCollection Memory where
  emptyCollection := ⟨[], []⟩

/-- The resolved function remembered under a name. -/
def find? (m : Memory) (name : Letter) : Option Definition :=
  m.known.lookup name

/-- Remembers a resolved function under a name. -/
def remember (m : Memory) (name : Letter) (d : Definition) : Memory :=
  { m with known := (name, d) :: m.known }

/-- Notes that a definition has been written out. -/
def note (m : Memory) (d : Definition) : Memory :=
  { m with trail := m.trail ++ [d] }

end Memory

namespace Resolver

/-- The limit where none is asked for. -/
def defaultLimit : Nat := 100000

/-! ### The measure -/

/-- How many letters are not on the path. -/
def unvisited (path : List Letter) : Nat :=
  (Letter.all.filter fun l => !path.contains l).length

/-- A new name on the path leaves fewer letters. -/
theorem unvisited_append_lt {path : List Letter} {name : Letter} (h : name ∉ path) :
    unvisited (path ++ [name]) < unvisited path := by
  have split : (Letter.all.filter fun l => !(path ++ [name]).contains l) =
      (Letter.all.filter fun l => !path.contains l).filter (· != name) := by
    rw [List.filter_filter]
    refine List.filter_congr fun l _ => ?_
    rw [Bool.eq_iff_iff]
    simp [and_comm]
  unfold unvisited
  rw [split]
  exact List.length_filter_lt_length_iff_exists.2
    ⟨name, by simpa [Letter.mem_all] using h, by simp⟩

/-! ### Resolution -/

mutual

/-- Resolves `d` while the functions named on `path` wait for it.  What is resolved
already is given back as it is, whatever its name. -/
def resolveFrom (r : Resolver) (path : List Letter) (d : Definition) (m : Memory) :
    Except Error Definition × Memory :=
  if d.isResolved then (.ok d, m)
  else if d.name ∈ path then (.error (.cyclicReference (path ++ [d.name])), m)
  else
    match inlineAll r (path ++ [d.name]) d d.nested.letters m with
    | (.error e, m) => (.error e, m)
    | (.ok whole, m) =>
      let done := { whole with nested := ∅ }
      (.ok done, m.note done)
termination_by (unvisited path, 0, 0)
decreasing_by exact Prod.Lex.left _ _ (unvisited_append_lt ‹_›)

/-- Puts the resolved statements of the functions `targets` into `d`, one name after
another.  The last name on `path` is that of `d`. -/
def inlineAll (r : Resolver) (path : List Letter) (d : Definition) (targets : List Letter)
    (m : Memory) : Except Error Definition × Memory :=
  match targets with
  | [] => (.ok d, m)
  | target :: targets =>
    match fetch r path d.name target m with
    | (.error e, m) => (.error e, m)
    | (.ok body, m) =>
      match d.inline r.limit target body with
      | .error e => (.error e, m)
      | .ok d => inlineAll r path d targets m
termination_by (unvisited path, 2, targets.length)
decreasing_by
  · exact Prod.Lex.right _ (Prod.Lex.left _ _ (by decide))
  · exact Prod.Lex.right _ (Prod.Lex.right _ (Nat.lt_succ_self _))

/-- The resolved function `target` to which `function` refers: from memory, else from
the registry. -/
def fetch (r : Resolver) (path : List Letter) (function target : Letter) (m : Memory) :
    Except Error Definition × Memory :=
  match m.find? target with
  | some done => (.ok done, m)
  | none =>
    match r.registry.find? target with
    | none => (.error (.missingNestedFunction function target), m)
    | some stored =>
      match resolveFrom r path stored m with
      | (.error e, m) => (.error e, m)
      | (.ok done, m) => (.ok done, m.remember target done)
termination_by (unvisited path, 1, 0)
decreasing_by exact Prod.Lex.right _ (Prod.Lex.left _ _ (by decide))

end

/-- Resolves a definition with what is remembered so far. -/
def resolve (r : Resolver) (d : Definition) (m : Memory) : Except Error Definition × Memory :=
  r.resolveFrom [] d m

/-- Resolves stored functions one after another up to the first that is refused. -/
def resolveNamed (r : Resolver) (names : List Char) (m : Memory) :
    Except Error (List Definition) × Memory :=
  match names with
  | [] => (.ok [], m)
  | name :: names =>
    match r.registry.lookup name with
    | .error e => (.error e, m)
    | .ok stored =>
      match r.resolve stored m with
      | (.error e, m) => (.error e, m)
      | (.ok d, m) =>
        match r.resolveNamed names m with
        | (.error e, m) => (.error e, m)
        | (.ok ds, m) => (.ok (d :: ds), m)

/-! ### In the journal -/

/-- Runs a resolution that remembers nothing from before, and records what it writes out. -/
def journaled {α : Type} (run : Memory → Except Error α × Memory) : Journaled α :=
  let result := run ∅
  ⟨result.1, result.2.trail.map .resolved⟩

@[simp] theorem outcome_journaled {α : Type} (run : Memory → Except Error α × Memory) :
    (journaled run).outcome = (run ∅).1 := rfl

end Resolver

end Switching
