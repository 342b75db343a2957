/-
Substituting a sentence is grafting its tree.

A body goes into a statement in parentheses, wherever it goes, and a parenthesis is one
operand.  So the statement has the shape that it has with a variable in the place of each
reference, and its tree is the tree of that with the tree of the body on the leaves of
the variable.  The variable only marks the places: it must not stand in the statement
already, and it may well stand in the body.

In both directions the argument is about `Outlines`, the reading that stops at the
references.  The limits count what is really open and how deep the tree really is, so they
can refuse the substituted statement where they pass the one with the variable, and never
the other way round.
-/
import Switching.Proofs.Malformed
import Switching.Proofs.Printing
import Switching.Proofs.Viability

namespace Switching

/-- The expression with the tree `e` on every leaf `v`. -/
def Expr.graft (p : Expr) (v : Letter) (e : Expr) : Expr :=
  match p with
  | .var w => if w = v then e else .var w
  | .not p => .not (p.graft v e)
  | .binary op l r => .binary op (l.graft v e) (r.graft v e)

/-- The token, or the variable `v` in the place of a reference to `f`. -/
def Token.marked (f v : Letter) (t : Token) : Token :=
  if t = .ref f then .var v else t

/-- The statement with the variable `v` for every reference to `f`. -/
def Statement.marked (f v : Letter) (s : Statement) : Statement :=
  s.map (Token.marked f v)

namespace Expr

/-- Grafting makes no tree less deep. -/
theorem depth_le_depth_graft (p : Expr) (v : Letter) (e : Expr) :
    p.depth ≤ (p.graft v e).depth := by
  induction p with
  | var w =>
      rw [graft]
      split
      · exact e.depth_pos
      · exact Nat.le_refl _
  | not p ih => exact Nat.succ_le_succ ih
  | binary op l r ihl ihr =>
      rw [graft, depth, depth]
      omega

end Expr

namespace Token

variable {f v : Letter} {t u : Token}

@[simp] theorem marked_ref_self (f v : Letter) : marked f v (.ref f) = .var v :=
  if_pos rfl

/-- Only a variable can come from a reference. -/
theorem marked_eq_iff (hu : ∀ w, u ≠ .var w) : t.marked f v = u ↔ t = u ∧ t ≠ .ref f := by
  unfold marked
  split
  · rename_i ht
    constructor
    · intro h
      exact absurd h.symm (hu v)
    · intro h
      exact absurd ht h.2
  · rename_i ht
    constructor
    · intro h
      exact ⟨h, ht⟩
    · intro h
      exact h.1

end Token

section

variable {f v : Letter} {b : Statement} {e : Expr} {level : Option Connective}
  {s : Statement} {r p : Expr} {m n : Nat}

/-- The one body of a substitution. -/
def Statement.bodyOf (f : Letter) (b : Statement) (g : Letter) : Option Statement :=
  if g = f then some b else none

/-- What a reading of the substituted statement has around the bodies is a reading of the
statement with the variable, and the body's tree is grafted on its leaves. -/
theorem Outlines.ungraft (h : Outlines (Statement.bodyOf f b) level s r n)
    (hb : Derives (some .or) b e m) (hv : Token.var v ∉ s) :
    ∃ p k, Derives level (s.marked f v) p k ∧ k ≤ n ∧ r = p.graft v e := by
  induction h with
  | var w =>
      have hw : w ≠ v := by
        rintro rfl
        exact hv (List.mem_singleton_self _)
      refine ⟨.var w, 0, .var w, Nat.le_refl 0, ?_⟩
      rw [Expr.graft, if_neg hw]
  | @ref g body e' k filled inner =>
      unfold Statement.bodyOf at filled
      split at filled
      · rename_i hg
        cases filled
        subst hg
        refine ⟨.var v, 0, ?_, Nat.zero_le _, ?_⟩
        · rw [Statement.marked, List.map_singleton, Token.marked_ref_self]
          exact .var v
        · rw [Expr.graft, if_pos rfl, (inner.unique hb).1]
      · cases filled
  | not _ ih =>
      obtain ⟨p, k, hd, hk, hr⟩ := ih (fun hmem => hv (List.mem_cons_of_mem _ hmem))
      exact ⟨.not p, k + 1, .not hd, Nat.succ_le_succ hk, by rw [hr, Expr.graft]⟩
  | @group s r n _ ih =>
      obtain ⟨p, k, hd, hk, hr⟩ := ih (fun hmem => hv (by simp [hmem]))
      refine ⟨p, k + 1, ?_, Nat.succ_le_succ hk, hr⟩
      rw [Statement.marked, List.map_cons, List.map_append]
      exact .group hd
  | first _ ih =>
      obtain ⟨p, k, hd, hk, hr⟩ := ih hv
      exact ⟨p, k, .first hd, hk, hr⟩
  | @next op s t l r m n _ _ ihl ihr =>
      obtain ⟨p, k, hl, hk, rfl⟩ := ihl (fun hmem => hv (List.mem_append_left _ hmem))
      obtain ⟨q, j, hr, hj, rfl⟩ := ihr (fun hmem => hv (by simp [hmem]))
      refine ⟨.binary op p q, max k j, ?_, by omega, by rw [Expr.graft]⟩
      rw [Statement.marked, List.map_append, List.map_cons]
      exact .next hl hr

/-- A reading of the statement with the variable leads around the bodies. -/
theorem Derives.graft {x : Statement} (h : Derives level x p n)
    (hb : Derives (some .or) b e m) :
    ∀ {s : Statement}, s.marked f v = x → Token.var v ∉ s →
      ∃ k, Outlines (Statement.bodyOf f b) level s (p.graft v e) k := by
  induction h with
  | var w =>
      intro s hs hv
      obtain ⟨t, rfl, ht⟩ := List.map_eq_singleton_iff.mp hs
      unfold Token.marked at ht
      split at ht
      · rename_i href
        cases ht
        subst href
        refine ⟨m + 1, ?_⟩
        rw [Expr.graft, if_pos rfl]
        exact .ref (if_pos rfl) hb
      · subst ht
        have hw : w ≠ v := by
          rintro rfl
          exact hv (List.mem_singleton_self _)
        refine ⟨0, ?_⟩
        rw [Expr.graft, if_neg hw]
        exact .var w
  | not _ ih =>
      intro s hs hv
      obtain ⟨t, s, rfl, ht, hrest⟩ := List.map_eq_cons_iff.mp hs
      obtain ⟨rfl, -⟩ := (Token.marked_eq_iff (by simp)).mp ht
      obtain ⟨k, ho⟩ := ih hrest (fun hmem => hv (List.mem_cons_of_mem _ hmem))
      exact ⟨k + 1, .not ho⟩
  | group _ ih =>
      intro s hs hv
      obtain ⟨t, s, rfl, ht, hrest⟩ := List.map_eq_cons_iff.mp hs
      obtain ⟨inner, last, rfl, hinner, hlast⟩ := List.map_eq_append_iff.mp hrest
      obtain ⟨u, rfl, hu⟩ := List.map_eq_singleton_iff.mp hlast
      obtain ⟨rfl, -⟩ := (Token.marked_eq_iff (by simp)).mp ht
      obtain ⟨rfl, -⟩ := (Token.marked_eq_iff (by simp)).mp hu
      obtain ⟨k, ho⟩ := ih hinner (fun hmem => hv (by simp [hmem]))
      exact ⟨k + 1, .group ho⟩
  | first _ ih =>
      intro s hs hv
      obtain ⟨k, ho⟩ := ih hs hv
      exact ⟨k, .first ho⟩
  | next _ _ ihl ihr =>
      intro s hs hv
      obtain ⟨left, rest, rfl, hleft, hrest⟩ := List.map_eq_append_iff.mp hs
      obtain ⟨t, right, rfl, ht, hright⟩ := List.map_eq_cons_iff.mp hrest
      obtain ⟨rfl, -⟩ := (Token.marked_eq_iff (by simp)).mp ht
      obtain ⟨k, hl⟩ := ihl hleft (fun hmem => hv (List.mem_append_left _ hmem))
      obtain ⟨j, hr⟩ := ihr hright (fun hmem => hv (by simp [hmem]))
      exact ⟨max k j, .next hl hr⟩

theorem Derives.wellFilled_bodyOf (hb : Derives (some .or) b e m) :
    WellFilled (Statement.bodyOf f b) s := by
  intro g body _ hbody
  unfold Statement.bodyOf at hbody
  split at hbody
  · cases hbody
    exact ⟨e, m, hb⟩
  · cases hbody

/-- **Substituting a sentence is grafting its tree.**  Let `v` be a variable that does not
stand in the statement.  If the statement can be read with `b` substituted for `f`, it can be
read with `v` for `f`, and the tree of the first is that of the second with the tree of `b` on
every leaf `v`.  If it can be read with `v` for `f`, then with `b` substituted only the nesting
or the depth can be too great. -/
theorem Expr.parse_substitute (hb : parse b = .ok e) (hv : Token.var v ∉ s) :
    (∀ r, parse (s.substitute f b) = .ok r →
      ∃ p, parse (s.marked f v) = .ok p ∧ r = p.graft v e) ∧
    (∀ p, parse (s.marked f v) = .ok p →
      parse (s.substitute f b) = .ok (p.graft v e) ∨
      ∃ k, parse (s.substitute f b) = .error (.tooNested k) ∨
        parse (s.substitute f b) = .error (.tooDeep k)) := by
  obtain ⟨m, hbody, -, -⟩ := parse_sound hb
  have hfill : s.substitute f b = s.fill (Statement.bodyOf f b) :=
    Statement.substitute_eq_fill s f b
  constructor
  · intro r hr
    obtain ⟨n, hd, hn, hdepth⟩ := parse_sound hr
    rw [hfill] at hd
    obtain ⟨p, k, hp, hk, rfl⟩ := (hd.outlines rfl hbody.wellFilled_bodyOf).ungraft hbody hv
    have hshallow := depth_le_depth_graft p v e
    exact ⟨p, parse_complete ⟨k, hp, by omega, by omega⟩, rfl⟩
  · intro p hp
    obtain ⟨n, hd, -, -⟩ := parse_sound hp
    obtain ⟨k, ho⟩ := hd.graft hbody rfl hv
    rw [hfill]
    exact parse_of_derives ho.derives

end

namespace Resolver

/-- The tree of `a*!(a+b)+b*(a+b)` is that of `a*!f+b*f` with the tree of `a+b` on the leaves
`f`. -/
theorem parse_substitute_outer :
    Expr.parse inner.statement = .ok (.binary .or (.var .a) (.var .b)) ∧
    Token.var .f ∉ outer.statement ∧
    ∃ r p, Expr.parse (outer.statement.substitute .f inner.statement) = .ok r ∧
      Expr.parse (outer.statement.marked .f .f) = .ok p ∧
      r = p.graft .f (.binary .or (.var .a) (.var .b)) := by
  have hv : Token.var .f ∉ outer.statement := by decide
  have hr : ∃ r, Expr.parse (outer.statement.substitute .f inner.statement) = .ok r :=
    ⟨_, parse_outer⟩
  obtain ⟨r, hr⟩ := hr
  obtain ⟨p, hp, hrp⟩ := (Expr.parse_substitute parse_inner hv).1 r hr
  exact ⟨parse_inner, hv, r, p, hr, hp, hrp⟩

end Resolver

end Switching
