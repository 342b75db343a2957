/-
The registry of functions.

At most one function is stored under each letter.  A registry is nothing but this
look-up, so two registries that answer every look-up alike are equal, and listing one
means asking it for every letter of the alphabet in turn.
-/
import Switching.Definition

namespace Switching

/-- The functions stored, by name. -/
@[ext] structure Registry where
  /-- The function stored under a letter. -/
  find? : Letter → Option Definition

namespace Registry

/-- Nothing is stored. -/
instance : EmptyCollection Registry where
  emptyCollection := ⟨fun _ => none⟩

@[simp] theorem find?_empty (l : Letter) : (∅ : Registry).find? l = none := rfl

/-- Stores a function under its own name in place of what was stored there. -/
def define (r : Registry) (d : Definition) : Registry :=
  ⟨fun l => if l = d.name then some d else r.find? l⟩

@[simp] theorem find?_define (r : Registry) (d : Definition) (l : Letter) :
    (r.define d).find? l = if l = d.name then some d else r.find? l := rfl

/-- The function of a name; a character that is no letter names none. -/
def lookup (r : Registry) (c : Char) : Except Error Definition :=
  match (Letter.ofChar? c).bind r.find? with
  | some d => .ok d
  | none => .error (.notFound c)

/-- The functions stored, in ascending order of the letters they are stored under. -/
def toList (r : Registry) : List Definition :=
  Letter.all.filterMap r.find?

theorem mem_toList {r : Registry} {d : Definition} :
    d ∈ r.toList ↔ ∃ l, r.find? l = some d := by
  simp [toList, Letter.mem_all]

/-- The number of functions stored. -/
def size (r : Registry) : Nat :=
  r.toList.length

end Registry

end Switching
