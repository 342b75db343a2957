/-
No operand follows directly on another.

A conjunction may be left out in the text of an expression, and reading puts it in, so
between a token that ends an operand and one that begins one there is always something.
A statement of which this is true is *spaced*.  Replacing references does not put
anything in, and need not: a body comes in parentheses, so at its two edges it begins and
ends an operand just as the reference did that it replaces.
-/
import Mathlib.Data.List.Chain
import Switching.Statement.Scan
import Switching.Proofs.Filling

namespace Switching

namespace Statement

/-- No token that ends an operand stands directly before one that begins one. -/
def Spaced (s : Statement) : Prop :=
  s.IsChain fun t u => juxtaposed t u = false

section

variable {s body : Statement} {read : List Token} {t u : Token}
  {bodies : Letter → Option Statement}

/-! ### Reading -/

theorem juxtaposed_of_not_starts (h : u.startsOperand = false) (t : Token) :
    juxtaposed t u = false := by
  rw [juxtaposed, h, Bool.and_false]

/-- The conjunction that was left out keeps two operands apart. -/
theorem spaced_push (h : Spaced read.reverse) (t : Token) : Spaced (push read t).reverse := by
  unfold Spaced at h ⊢
  rw [List.isChain_reverse] at h ⊢
  cases read with
  | nil => exact .singleton t
  | cons last read =>
      rw [push]
      split
      · exact .cons_cons rfl (.cons_cons (juxtaposed_of_not_starts rfl last) h)
      · rename_i hapart
        exact .cons_cons (Bool.eq_false_iff.mpr hapart) h

/-- What is read from a text is spaced. -/
theorem spaced_of_scanFrom {cs : List Char} (hread : Spaced read.reverse)
    (h : scanFrom read cs = .ok s) : s.Spaced := by
  fun_induction scanFrom read cs with
  | case1 =>
      rw [Except.ok.injEq] at h
      rwa [← h]
  | case3 =>
      rename_i ih
      exact ih (spaced_push hread _) h
  | case5 =>
      rename_i ih
      exact ih (spaced_push hread _) h
  | case2 | case4 | case6 => cases h

/-! ### Replacing -/

/-- Parentheses keep to themselves what they enclose. -/
theorem Spaced.enclosed (h : body.Spaced) : (enclosed body).Spaced := by
  refine List.IsChain.cons (h.append (.singleton _) ?_) fun t _ => rfl
  intro t _ u hu
  cases hu
  exact juxtaposed_of_not_starts rfl t

/-- What takes the place of a token begins and ends an operand if the token does. -/
theorem edges_filled (bodies : Letter → Option Statement) (t : Token) :
    (∀ u ∈ (filled bodies t).head?, u.startsOperand = t.startsOperand) ∧
      ∀ u ∈ (filled bodies t).getLast?, u.endsOperand = t.endsOperand := by
  rcases filled_cases bodies t with ⟨f, body, rfl, -, hfilled⟩ | ⟨-, hfilled⟩
  · have hlast : (Statement.enclosed body).getLast? = some .rparen := by
      rw [Statement.enclosed, ← List.cons_append, List.getLast?_concat]
    rw [hfilled, hlast]
    exact ⟨fun u hu => by cases hu; rfl, fun u hu => by cases hu; rfl⟩
  · rw [hfilled]
    exact ⟨fun u hu => by cases hu; rfl, fun u hu => by cases hu; rfl⟩

theorem spaced_filled (hb : ∀ f b, t = .ref f → bodies f = some b → b.Spaced) :
    (filled bodies t).Spaced := by
  rcases filled_cases bodies t with ⟨f, body, ht, hf, hfilled⟩ | ⟨-, hfilled⟩
  · rw [hfilled]
    exact (hb f body ht hf).enclosed
  · rw [hfilled]
    exact .singleton t

/-- What a filled statement begins with begins an operand if the statement did. -/
theorem startsOperand_head?_fill (hu : u ∈ (s.fill bodies).head?) :
    ∃ t ∈ s.head?, u.startsOperand = t.startsOperand := by
  cases s with
  | nil => cases hu
  | cons t s =>
      have hne : filled bodies t ≠ [] := List.ne_nil_of_length_pos (length_filled_pos bodies t)
      rw [fill_cons, List.head?_append_of_ne_nil _ hne] at hu
      exact ⟨t, rfl, (edges_filled bodies t).1 u hu⟩

/-- **Putting in spaced bodies leaves a statement spaced.** -/
theorem Spaced.fill (h : s.Spaced) (hb : ∀ f b, .ref f ∈ s → bodies f = some b → b.Spaced) :
    (s.fill bodies).Spaced := by
  induction s with
  | nil => exact .nil
  | cons t s ih =>
      have hrest := ih h.tail fun f b hf => hb f b (List.mem_cons_of_mem _ hf)
      have hfirst : (filled bodies t).Spaced :=
        spaced_filled fun f b ht => hb f b (ht ▸ List.mem_cons_self ..)
      rw [fill_cons]
      refine List.IsChain.append hfirst hrest ?_
      intro x hx y hy
      obtain ⟨u, hu, hstarts⟩ := startsOperand_head?_fill hy
      rw [juxtaposed, (edges_filled bodies t).2 x hx, hstarts]
      exact h.rel_head? hu

end

end Statement

end Switching
