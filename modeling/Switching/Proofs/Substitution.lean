/-
The size that is foretold.

A limit on tokens protects the memory only if the size of a replacement is known before it
is made, and is known exactly.  The references to one name cut a statement into pieces, and
what a replacement does is said by those pieces alone: they stay, in their order, and between
two of them stands the body in parentheses where the reference stood.  That there is one
reference less than there are pieces gives the count, and from it the size.

The size is a product and a sum of machine words, each of which may not fit.  Since the product
is part of the sum, one test of the sum stands for both.
-/
import Switching.Proofs.Filling

namespace Switching.Statement

/-! ### The pieces between the references -/

/-- The references to `f` cut the statement `s` into `pieces`. -/
structure CutAt (f : Letter) (pieces : List Statement) (s : Statement) : Prop where
  /-- The statement is a piece as a whole if nothing cuts it. -/
  pieces_ne_nil : pieces ≠ []
  /-- No piece refers to `f`. -/
  clear : ∀ piece ∈ pieces, .ref f ∉ piece
  /-- With one reference between neighbours the pieces are the statement. -/
  joined : [.ref f].intercalate pieces = s

section

variable {f : Letter} {pieces : List Statement} {s body : Statement}

/-- A token in front belongs to the first piece, or cuts an empty piece off. -/
theorem exists_cutAt (f : Letter) (s : Statement) : ∃ pieces, CutAt f pieces s := by
  induction s with
  | nil => exact ⟨[[]], List.cons_ne_nil _ _, by simp, List.intercalate_singleton⟩
  | cons t s ih =>
      obtain ⟨pieces, hne, hclear, rfl⟩ := ih
      obtain ⟨piece, rest, rfl⟩ := List.exists_cons_of_ne_nil hne
      by_cases ht : t = .ref f
      · subst ht
        refine ⟨[] :: piece :: rest, List.cons_ne_nil _ _, ?_, List.intercalate_cons_cons⟩
        simpa using hclear
      · refine ⟨(t :: piece) :: rest, List.cons_ne_nil _ _, ?_, ?_⟩
        · simpa [Ne.symm ht] using hclear
        · cases rest with
          | nil => rw [List.intercalate_singleton, List.intercalate_singleton]
          | cons next rest =>
              rw [List.intercalate_cons_cons, List.intercalate_cons_cons]
              rfl

theorem substitute_append (s t : Statement) :
    (s ++ t).substitute f body = s.substitute f body ++ t.substitute f body :=
  List.flatMap_append

theorem substitute_ref : substitute [.ref f] f body = enclosed body := by
  simp [substitute, replacement, enclosed]

/-- Where nothing refers to `f`, nothing is replaced. -/
theorem substitute_of_not_mem (h : .ref f ∉ s) : s.substitute f body = s := by
  rw [substitute_eq_fill]
  refine fill_eq_self fun g hg => if_neg ?_
  rintro rfl
  exact h hg

/-- **The pieces stay, and the body in parentheses comes between them.** -/
theorem CutAt.substitute (h : CutAt f pieces s) :
    s.substitute f body = (enclosed body).intercalate pieces := by
  obtain ⟨hne, hclear, rfl⟩ := h
  induction pieces with
  | nil => exact absurd rfl hne
  | cons piece rest ih =>
      have hpiece : piece.substitute f body = piece :=
        substitute_of_not_mem (hclear piece (List.mem_cons_self ..))
      cases rest with
      | nil => rw [List.intercalate_singleton, List.intercalate_singleton, hpiece]
      | cons next rest =>
          rw [List.intercalate_cons_cons, List.intercalate_cons_cons, substitute_append,
            substitute_append, hpiece, substitute_ref,
            ih (List.cons_ne_nil _ _) fun p hp => hclear p (List.mem_cons_of_mem _ hp)]

/-- There is one piece more than there are references. -/
theorem CutAt.length_eq (h : CutAt f pieces s) : pieces.length = s.occurrences f + 1 := by
  obtain ⟨hne, hclear, rfl⟩ := h
  unfold occurrences
  induction pieces with
  | nil => exact absurd rfl hne
  | cons piece rest ih =>
      have hpiece := List.count_eq_zero_of_not_mem (hclear piece (List.mem_cons_self ..))
      cases rest with
      | nil => rw [List.intercalate_singleton, hpiece, List.length_singleton]
      | cons next rest =>
          rw [List.intercalate_cons_cons, List.count_append, List.count_append, hpiece,
            List.count_singleton_self, List.length_cons,
            ih (List.cons_ne_nil _ _) fun p hp => hclear p (List.mem_cons_of_mem _ hp)]
          omega

/-- Giving back a statement that has nothing to replace is no exception. -/
theorem substituteCounted_eq (s : Statement) (f : Letter) (body : Statement) :
    s.substituteCounted f body = (s.occurrences f, s.substitute f body) := by
  unfold substituteCounted
  by_cases h : s.occurrences f = 0
  · rw [if_pos h, h, substitute_of_not_mem (List.count_eq_zero.mp h)]
  · rw [if_neg h]

end

/-! ### Counting in words -/

/-- A count that fits in a word. -/
def word? (n : Nat) : Option Nat :=
  if n ≤ maxCount then some n else none

variable {m n : Nat}

theorem word?_eq_some_iff : word? n = some m ↔ m = n ∧ m ≤ maxCount := by
  unfold word?
  split <;> grind

theorem word?_eq_none_iff : word? n = none ↔ maxCount < n := by
  simp [word?]

/-- A sum that fits has terms that fit. -/
theorem word?_bind_add (n k : Nat) : ((word? n).bind fun n => word? (n + k)) = word? (n + k) := by
  by_cases h : n ≤ maxCount
  · simp [word?, h]
  · have hsum : ¬ n + k ≤ maxCount := fun hle => h (Nat.le_of_add_right_le hle)
    simp [word?, h, hsum]

/-- The product is tested first and then the sum. -/
theorem substitutedSize?_eq_checked (s : Statement) (f : Letter) (body : Statement) :
    s.substitutedSize? f body =
      (word? (s.occurrences f * (body.length + 1))).bind fun added => word? (added + s.length) := by
  rw [word?_bind_add]
  rfl

/-- The size that is foretold is that of the result. -/
theorem substitutedSize?_eq_word? (s : Statement) (f : Letter) (body : Statement) :
    s.substitutedSize? f body = word? (s.substitute f body).length := by
  rw [length_substitute]
  rfl

/-- **A replacement is exactly what it is foretold to be.**  It counts the references to `f`,
puts the body in parentheses where one of them stood and leaves the rest as it was; and its
size is known before, unless it does not fit in a word.  The product of the size is tested
before the sum. -/
theorem substituteCounted_exact (s : Statement) (f : Letter) (body : Statement) :
    (s.substituteCounted f body).1 = s.count (.ref f) ∧
    (∃ pieces, CutAt f pieces s ∧
      pieces.length = (s.substituteCounted f body).1 + 1 ∧
      (s.substituteCounted f body).2 = (enclosed body).intercalate pieces) ∧
    (∀ m, s.substitutedSize? f body = some m ↔
      m = (s.substituteCounted f body).2.length ∧ m ≤ maxCount) ∧
    (s.substitutedSize? f body = none ↔ maxCount < (s.substituteCounted f body).2.length) ∧
    s.substitutedSize? f body = (word? (s.occurrences f * (body.length + 1))).bind
      fun added => word? (added + s.length) := by
  have hsize := substitutedSize?_eq_word? s f body
  rw [substituteCounted_eq]
  refine ⟨rfl, ?_, fun m => ?_, ?_, substitutedSize?_eq_checked s f body⟩
  · obtain ⟨pieces, hcut⟩ := exists_cutAt f s
    exact ⟨pieces, hcut, hcut.length_eq, hcut.substitute⟩
  · rw [hsize]
    exact word?_eq_some_iff
  · rw [hsize]
    exact word?_eq_none_iff

/-- The body may refer to the name itself: it is not looked at again. -/
example :
    let f : Letter := ⟨'f', rfl⟩
    substituteCounted [.ref f, .op .or, .ref f] f [.ref f] =
      (2, [.lparen, .ref f, .rparen, .op .or, .lparen, .ref f, .rparen]) := by
  decide

end Switching.Statement
