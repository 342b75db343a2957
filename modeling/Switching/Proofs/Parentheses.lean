/-
Matching parentheses.

`openAfter` counts the parentheses that are open after some tokens and gives up at one
that closes where none is open.  The parentheses of a statement match if the count goes
from none to none.  Everything the grammar derives is of this kind, and that is what
makes a parenthesis a wall: what stands inside one cannot take part in what goes on
outside, so it can be cut out and looked at alone.

Three uses are made of it here.  A parenthesis closes at one place only, a connective
outside all parentheses marks where a chain was put together, and what a derived
statement encloses in parentheses is itself derived as soon as its own parentheses
match.  The second gives that a statement has one tree.
-/
import Switching.Expr.Parser
import Switching.Proofs.Grammar

namespace Switching

namespace Statement

/-- How many parentheses are open after the tokens if `n` were before, unless one closes
that is not open. -/
def openAfter : Nat → Statement → Option Nat
  | n, [] => some n
  | n, .lparen :: s => openAfter (n + 1) s
  | 0, .rparen :: _ => none
  | n + 1, .rparen :: s => openAfter n s
  | n, .var _ :: s => openAfter n s
  | n, .ref _ :: s => openAfter n s
  | n, .not :: s => openAfter n s
  | n, .op _ :: s => openAfter n s

/-- Each parenthesis of the statement that opens closes, and none closes without. -/
def Matched (s : Statement) : Prop :=
  s.openAfter 0 = some 0

instance (s : Statement) : Decidable s.Matched :=
  inferInstanceAs (Decidable (s.openAfter 0 = some 0))

@[simp] theorem openAfter_nil (n : Nat) : openAfter n [] = some n := rfl

@[simp] theorem openAfter_lparen (n : Nat) (s : Statement) :
    openAfter n (.lparen :: s) = openAfter (n + 1) s := rfl

@[simp] theorem openAfter_zero_rparen (s : Statement) : openAfter 0 (.rparen :: s) = none := rfl

@[simp] theorem openAfter_succ_rparen (n : Nat) (s : Statement) :
    openAfter (n + 1) (.rparen :: s) = openAfter n s := rfl

@[simp] theorem openAfter_var (n : Nat) (v : Letter) (s : Statement) :
    openAfter n (.var v :: s) = openAfter n s := rfl

@[simp] theorem openAfter_ref (n : Nat) (f : Letter) (s : Statement) :
    openAfter n (.ref f :: s) = openAfter n s := rfl

@[simp] theorem openAfter_not (n : Nat) (s : Statement) :
    openAfter n (.not :: s) = openAfter n s := rfl

@[simp] theorem openAfter_op (n : Nat) (c : Connective) (s : Statement) :
    openAfter n (.op c :: s) = openAfter n s := rfl

/-- Counting goes on where it stopped. -/
theorem openAfter_append (s t : Statement) :
    ∀ n, openAfter n (s ++ t) = (openAfter n s).bind (openAfter · t) := by
  induction s with
  | nil => intro n; simp
  | cons token s ih =>
      intro n
      rw [List.cons_append]
      cases token with
      | rparen => cases n <;> simp [ih]
      | _ => simp [ih]

/-- More open before is as many more open after. -/
theorem openAfter_add (k : Nat) {s : Statement} :
    ∀ {n m : Nat}, openAfter n s = some m → openAfter (n + k) s = some (m + k) := by
  induction s with
  | nil =>
      intro n m h
      simpa using h
  | cons token s ih =>
      intro n m h
      cases token with
      | lparen =>
          rw [openAfter_lparen] at h ⊢
          rw [Nat.add_right_comm]
          exact ih h
      | rparen =>
          cases n with
          | zero => simp at h
          | succ n =>
              rw [openAfter_succ_rparen] at h
              rw [Nat.add_right_comm, openAfter_succ_rparen]
              exact ih h
      | _ =>
          simp only [openAfter_var, openAfter_ref, openAfter_not, openAfter_op] at h ⊢
          exact ih h

/-- A count that gets through two parts gets through the first. -/
theorem openAfter_split {s t : Statement} {n m : Nat} (h : openAfter n (s ++ t) = some m) :
    ∃ k, openAfter n s = some k ∧ openAfter k t = some m := by
  rw [openAfter_append] at h
  exact Option.bind_eq_some_iff.mp h

namespace Matched

variable {s t x y : Statement}

theorem openAfter (h : s.Matched) (n : Nat) : s.openAfter n = some n := by
  have := openAfter_add n h
  rwa [Nat.zero_add] at this

theorem append (hs : s.Matched) (ht : t.Matched) : (s ++ t).Matched := by
  rw [Matched, openAfter_append, hs.openAfter]
  exact ht

theorem enclosed (h : s.Matched) : Matched (.lparen :: (s ++ [.rparen])) := by
  rw [Matched, openAfter_lparen, openAfter_append, h.openAfter]
  rfl

/-- Where all parentheses match, no more can close. -/
theorem not_append_rparen (h : s.Matched) : ¬ Matched (s ++ .rparen :: x) := by
  rw [Matched, openAfter_append, h.openAfter]
  simp

/-- A parenthesis stays open over what could yet be prolonged so that all match. -/
theorem not_append_lparen (h : (s ++ t).Matched) : ¬ Matched (x ++ .lparen :: s) := by
  intro hx
  obtain ⟨j, hj, -⟩ := openAfter_split h
  obtain ⟨k, -, hk⟩ := openAfter_split hx
  have := openAfter_add (k + 1) hj
  rw [openAfter_lparen] at hk
  rw [Nat.zero_add, hk, Option.some.injEq] at this
  omega

/-- **A parenthesis closes at one place only.** -/
theorem append_rparen_inj (hs : s.Matched) (ht : t.Matched)
    (h : s ++ .rparen :: x = t ++ .rparen :: y) : s = t ∧ x = y := by
  rcases List.append_eq_append_iff.mp h with ⟨c, hc, hx⟩ | ⟨c, hc, hy⟩
  · cases c with
    | nil =>
        rw [List.nil_append, List.cons.injEq] at hx
        rw [List.append_nil] at hc
        exact ⟨hc.symm, hx.2⟩
    | cons token c =>
        rw [List.cons_append, List.cons.injEq] at hx
        rw [hc, ← hx.1] at ht
        exact absurd ht hs.not_append_rparen
  · cases c with
    | nil =>
        rw [List.nil_append, List.cons.injEq] at hy
        rw [List.append_nil] at hc
        exact ⟨hc, hy.2.symm⟩
    | cons token c =>
        rw [List.cons_append, List.cons.injEq] at hy
        rw [hc, ← hy.1] at hs
        exact absurd hs ht.not_append_rparen

end Matched

end Statement

namespace Derives

open Statement

variable {level : Option Connective} {s : Statement} {e : Expr} {n : Nat}

/-- The parentheses of a derived statement match. -/
theorem matched (h : Derives level s e n) : s.Matched := by
  induction h with
  | var => simp [Matched]
  | not _ ih => simpa [Matched] using ih
  | group _ ih => exact ih.enclosed
  | first _ ih => exact ih
  | next _ _ ihl ihr =>
      refine ihl.append ?_
      simpa [Matched] using ihr

/-! ### Connectives outside all parentheses

A connective that stands outside all parentheses of an operand binds tighter than the
level of the operand.  So the last connective of a chain that stands there is the one
that `next` put in, and a chain can be taken apart in one way only.
-/

theorem rank_lt_of_op (h : Derives level s e n) :
    ∀ {a b : Statement} {c : Connective}, s = a ++ .op c :: b → a.Matched →
      c.rank < Expr.levelRank level := by
  induction h with
  | var v =>
      intro a b c hs _
      cases a <;> simp at hs
  | @not s e n _ ih =>
      intro a b c hs ha
      cases a with
      | nil => simp at hs
      | cons t a =>
          rw [List.cons_append, List.cons.injEq] at hs
          rw [← hs.1] at ha
          exact ih hs.2 (by simpa [Matched] using ha)
  | @group s e n inner _ =>
      intro a b c hs ha
      exfalso
      cases a with
      | nil => simp at hs
      | cons t a =>
          rw [List.cons_append, List.cons.injEq] at hs
          obtain ⟨rfl, hs⟩ := hs
          -- Only behind the parenthesis that closes the group would it stand outside.
          rcases List.append_eq_append_iff.mp hs with ⟨d, hd, hrest⟩ | ⟨d, hd, -⟩
          · cases d with
            | nil => simp at hrest
            | cons t d => simp at hrest
          · have hm := inner.matched
            rw [hd] at hm
            exact hm.not_append_lparen (x := []) ha
  | @first op s e n _ ih =>
      intro a b c hs ha
      exact Nat.lt_trans (ih hs ha) (Expr.levelRank_tighter op)
  | @next op s t l r m n left _ ihl ihr =>
      intro a b c hs ha
      rcases List.append_eq_append_iff.mp hs with ⟨d, hd, hrest⟩ | ⟨d, hd, hrest⟩
      · cases d with
        | nil =>
            rw [List.nil_append, List.cons.injEq, Token.op.injEq] at hrest
            rw [← hrest.1]
            exact Nat.lt_succ_self _
        | cons token d =>
            rw [List.cons_append, List.cons.injEq] at hrest
            refine Nat.lt_trans (ihr hrest.2 ?_) (Expr.levelRank_tighter op)
            rw [hd, Matched, openAfter_append, left.matched, ← hrest.1] at ha
            simpa [Matched] using ha
      · cases d with
        | nil =>
            rw [List.nil_append, List.cons.injEq, Token.op.injEq] at hrest
            rw [hrest.1]
            exact Nat.lt_succ_self _
        | cons token d =>
            rw [List.cons_append, List.cons.injEq] at hrest
            rw [← hrest.1] at hd
            exact ihl hd ha

/-- No operand of the next tighter level holds the connective outside all parentheses. -/
theorem not_op_of_tighter {op : Connective} {a b : Statement}
    (h : Derives op.tighter (a ++ .op op :: b) e n) : ¬ a.Matched := by
  intro ha
  have hlt := h.rank_lt_of_op rfl ha
  have := Expr.levelRank_tighter op
  exact absurd (Nat.lt_of_lt_of_le hlt (Nat.le_of_lt_succ this)) (Nat.lt_irrefl _)

/-- The last connective of a chain is in one place. -/
theorem next_split {op : Connective} {s t s' t' : Statement} {l r l' r' : Expr} {m n m' n' : Nat}
    (hl : Derives (some op) s l m) (hr : Derives op.tighter t r n)
    (hl' : Derives (some op) s' l' m') (hr' : Derives op.tighter t' r' n')
    (h : s ++ .op op :: t = s' ++ .op op :: t') : s = s' ∧ t = t' := by
  rcases List.append_eq_append_iff.mp h with ⟨d, hd, hrest⟩ | ⟨d, hd, hrest⟩
  · cases d with
    | nil =>
        rw [List.nil_append, List.cons.injEq] at hrest
        rw [List.append_nil] at hd
        exact ⟨hd.symm, hrest.2⟩
    | cons token d =>
        rw [List.cons_append, List.cons.injEq] at hrest
        have hm := hl'.matched
        rw [hd, Matched, openAfter_append, hl.matched, ← hrest.1] at hm
        rw [hrest.2] at hr
        exact absurd (by simpa [Matched] using hm) hr.not_op_of_tighter
  · cases d with
    | nil =>
        rw [List.nil_append, List.cons.injEq] at hrest
        rw [List.append_nil] at hd
        exact ⟨hd, hrest.2.symm⟩
    | cons token d =>
        rw [List.cons_append, List.cons.injEq] at hrest
        have hm := hl.matched
        rw [hd, Matched, openAfter_append, hl'.matched, ← hrest.1] at hm
        rw [hrest.2] at hr'
        exact absurd (by simpa [Matched] using hm) hr'.not_op_of_tighter

/-- **A statement has one tree**, and it opens so much and no more. -/
theorem unique (h : Derives level s e n) :
    ∀ {e' : Expr} {n' : Nat}, Derives level s e' n' → e = e' ∧ n = n' := by
  induction h with
  | var v =>
      intro e' n' h'
      cases h'
      exact ⟨rfl, rfl⟩
  | not _ ih =>
      intro e' n' h'
      cases h' with
      | not operand =>
          obtain ⟨rfl, rfl⟩ := ih operand
          exact ⟨rfl, rfl⟩
  | @group s e n _ ih =>
      intro e' n' h'
      generalize hs : Token.lparen :: (s ++ [.rparen]) = s' at h'
      cases h' with
      | var => cases hs
      | not => cases hs
      | group inner =>
          rw [List.cons.injEq] at hs
          rw [← List.append_cancel_right hs.2] at inner
          obtain ⟨rfl, rfl⟩ := ih inner
          exact ⟨rfl, rfl⟩
  | first operand ih =>
      intro e' n' h'
      cases h' with
      | first operand' => exact ih operand'
      | next left' _ => exact absurd left'.matched operand.not_op_of_tighter
  | @next op s t l r m n left right ihl ihr =>
      intro e' n' h'
      generalize hs : s ++ .op op :: t = s' at h'
      cases h' with
      | first operand' =>
          rw [← hs] at operand'
          exact absurd left.matched operand'.not_op_of_tighter
      | next left' right' =>
          obtain ⟨rfl, rfl⟩ := next_split left right left' right' hs
          obtain ⟨rfl, rfl⟩ := ihl left'
          obtain ⟨rfl, rfl⟩ := ihr right'
          exact ⟨rfl, rfl⟩

/-! ### What parentheses enclose -/

/-- **A part in parentheses is derived if its own parentheses match**, and it neither
opens as much as the whole nor has a deeper tree. -/
theorem of_enclosed (h : Derives level s e n) :
    ∀ {a b c : Statement}, s = a ++ .lparen :: (b ++ .rparen :: c) → b.Matched →
      ∃ e' n', Derives (some .or) b e' n' ∧ n' < n ∧ e'.depth ≤ e.depth := by
  induction h with
  | var v =>
      intro a b c hs _
      cases a <;> simp at hs
  | @not s e n _ ih =>
      intro a b c hs hb
      cases a with
      | nil => simp at hs
      | cons t a =>
          rw [List.cons_append, List.cons.injEq] at hs
          obtain ⟨e', n', hd, hn, hdepth⟩ := ih hs.2 hb
          exact ⟨e', n', hd, Nat.lt_succ_of_lt hn, Nat.le_succ_of_le hdepth⟩
  | @group s e n inner ih =>
      intro a b c hs hb
      cases a with
      | nil =>
          rw [List.nil_append, List.cons.injEq] at hs
          obtain ⟨rfl, -⟩ := inner.matched.append_rparen_inj hb hs.2
          exact ⟨e, n, inner, Nat.lt_succ_self n, Nat.le_refl _⟩
      | cons t a =>
          rw [List.cons_append, List.cons.injEq] at hs
          rcases List.eq_nil_or_concat c with rfl | ⟨c, t', rfl⟩
          · -- The part would reach to the end and leave open what stands before it.
            have hs' : s = a ++ .lparen :: b := by
              have := hs.2
              rw [show a ++ .lparen :: (b ++ [.rparen]) = (a ++ .lparen :: b) ++ [.rparen] by
                simp] at this
              exact List.append_cancel_right this
            have hm := inner.matched
            rw [← List.append_nil b] at hb
            rw [hs'] at hm
            exact absurd hm hb.not_append_lparen
          · have hs' : s = a ++ .lparen :: (b ++ .rparen :: c) := by
              have := hs.2
              rw [List.concat_eq_append, show a ++ .lparen :: (b ++ .rparen :: (c ++ [t']))
                = (a ++ .lparen :: (b ++ .rparen :: c)) ++ [t'] by simp] at this
              exact (List.append_inj' this rfl).1
            obtain ⟨e', n', hd, hn, hdepth⟩ := ih hs' hb
            exact ⟨e', n', hd, Nat.lt_succ_of_lt hn, hdepth⟩
  | first _ ih => exact ih
  | @next op s t l r m n left _ ihl ihr =>
      intro a b c hs hb
      have hl : l.depth ≤ (Expr.binary op l r).depth :=
        Nat.le_succ_of_le (Nat.le_max_left _ _)
      have hr : r.depth ≤ (Expr.binary op l r).depth :=
        Nat.le_succ_of_le (Nat.le_max_right _ _)
      rcases List.append_eq_append_iff.mp hs with ⟨d, -, hrest⟩ | ⟨d, hd, hrest⟩
      · cases d with
        | nil => simp at hrest
        | cons t' d =>
            rw [List.cons_append, List.cons.injEq] at hrest
            obtain ⟨e', n', hd, hn, hdepth⟩ := ihr hrest.2 hb
            exact ⟨e', n', hd, by omega, Nat.le_trans hdepth hr⟩
      · cases d with
        | nil => simp at hrest
        | cons t' d =>
            rw [List.cons_append, List.cons.injEq] at hrest
            rw [← hrest.1] at hd
            rcases List.append_eq_append_iff.mp hrest.2 with ⟨g, hg, hc⟩ | ⟨g, hg, -⟩
            · cases g with
              | nil => simp at hc
              | cons t' g =>
                  rw [List.cons_append, List.cons.injEq] at hc
                  rw [hg, ← hc.1] at hd
                  obtain ⟨e', n', hd, hn, hdepth⟩ := ihl hd hb
                  exact ⟨e', n', hd, by omega, Nat.le_trans hdepth hl⟩
            · -- The connective would stand inside the part.
              have hm := left.matched
              rw [hd] at hm
              rw [hg] at hb
              exact absurd hm hb.not_append_lparen

end Derives

end Switching
