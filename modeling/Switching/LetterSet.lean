/-
Sets of letters.

A set is kept as the list of its members in the order of the alphabet.  The proof
field says so, which makes the representation unique: two sets with the same members
are equal, and listing a set never needs sorting.
-/
import Switching.Letter

namespace Switching

/-- A finite set of letters, listed in ascending order. -/
structure LetterSet where
  /-- The members in ascending order, each once. -/
  letters : List Letter
  /-- The list is the part of the alphabet that it names. -/
  canonical : letters = Letter.all.filter (letters.contains ·)
deriving DecidableEq

namespace LetterSet

/-- The set of the letters that occur in a list. -/
def ofList (letters : List Letter) : LetterSet where
  letters := Letter.all.filter (letters.contains ·)
  canonical := by
    refine List.filter_congr fun l hl => ?_
    rw [Bool.eq_iff_iff]
    simp [Letter.mem_all]

instance : Membership Letter LetterSet where
  mem s l := l ∈ s.letters

instance (l : Letter) (s : LetterSet) : Decidable (l ∈ s) :=
  inferInstanceAs (Decidable (l ∈ s.letters))

theorem mem_def {l : Letter} {s : LetterSet} : l ∈ s ↔ l ∈ s.letters := Iff.rfl

@[simp] theorem mem_ofList {l : Letter} {letters : List Letter} :
    l ∈ ofList letters ↔ l ∈ letters := by
  simp [mem_def, ofList, Letter.mem_all]

/-- Sets with the same members are equal. -/
@[ext] theorem ext {s t : LetterSet} (h : ∀ l, l ∈ s ↔ l ∈ t) : s = t := by
  obtain ⟨ls, hs⟩ := s
  obtain ⟨lt, ht⟩ := t
  have : ls = lt := by
    rw [hs, ht]
    refine List.filter_congr fun l _ => ?_
    rw [Bool.eq_iff_iff]
    simpa [mem_def] using h l
  subst this
  rfl

instance : EmptyCollection LetterSet where
  emptyCollection := ofList []

@[simp] theorem not_mem_empty (l : Letter) : l ∉ (∅ : LetterSet) := by
  show ¬ l ∈ ofList []
  simp

/-- The letters of either set. -/
instance : Union LetterSet where
  union s t := ofList (s.letters ++ t.letters)

@[simp] theorem mem_union {l : Letter} {s t : LetterSet} : l ∈ s ∪ t ↔ l ∈ s ∨ l ∈ t := by
  show l ∈ ofList (s.letters ++ t.letters) ↔ _
  simp [mem_def (s := s), mem_def (s := t)]

/-- The set has no member. -/
def isEmpty (s : LetterSet) : Bool :=
  s.letters.isEmpty

theorem isEmpty_iff {s : LetterSet} : s.isEmpty = true ↔ s = ∅ := by
  constructor
  · intro h
    ext l
    simp [mem_def (s := s), List.isEmpty_iff.1 h]
  · rintro rfl
    rfl

/-- The letters are listed by their character codes. -/
theorem ascending (s : LetterSet) :
    s.letters.Pairwise fun k l => k.char.toNat < l.char.toNat := by
  rw [s.canonical]
  exact Letter.all_ascending.filter _

/-- No letter is listed twice. -/
theorem nodup (s : LetterSet) : s.letters.Nodup := by
  refine s.ascending.imp ?_
  rintro k l hlt rfl
  exact Nat.lt_irrefl _ hlt

/-- The number of members. -/
def size (s : LetterSet) : Nat :=
  s.letters.length

/-- Every member of the first set is one of the second. -/
def isSubset (s t : LetterSet) : Bool :=
  s.letters.all (t.letters.contains ·)

theorem isSubset_iff {s t : LetterSet} : s.isSubset t = true ↔ ∀ l ∈ s, l ∈ t := by
  simp [isSubset, mem_def]

/-- The members one after another, as text. -/
def toText (s : LetterSet) : String :=
  String.ofList (s.letters.map Letter.char)

end LetterSet

end Switching
