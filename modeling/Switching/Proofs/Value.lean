/-
The value of a function, without writing anything out.

A statement can be read as it stands, reference and all: a reference is an operand like a
variable, and its value is that of the function referred to under the same assignment.
`Value` is this reading.  It follows the grammar of `Switching.Proofs.Grammar` rule by
rule, with one more rule for references, and says of every function what it means in
terms of the functions that it mentions, where the resolver says it in terms of tokens.
Which values a connective joins to which is written into its rule, as are the levels, so
nothing here is taken from the reader or from `Expr.eval`.

The two agree.  From a value there is a derivation of the full expansion whose tree has
the value: a body in parentheses is derived wherever an operand is.  Conversely, a
derivation of the full expansion can be taken back to the statement as it stands, around the
bodies (`Outlines` in `Switching.Proofs.Filling`).  This is where the bodies have to be well
formed by themselves: `Switching.Proofs.Malformed` has one that is not.
-/
import Switching.Proofs.Expansion

namespace Switching

/-- `Value r assign level s b`: read as an operand of the level, the statement `s` has the
value `b` where the variables have the values that `assign` gives them. -/
inductive Value (r : Registry) (assign : Letter → Bool) :
    Option Connective → Statement → Bool → Prop
  /-- A variable has the value assigned to it. -/
  | var (v : Letter) : Value r assign none [.var v] (assign v)
  /-- A reference has the value of the function referred to. -/
  | ref {g : Letter} {d : Definition} {b : Bool} (stored : r.find? g = some d)
      (body : Value r assign (some .or) d.statement b) : Value r assign none [.ref g] b
  /-- A negation has the opposite value. -/
  | not {s : Statement} {b : Bool} (operand : Value r assign none s b) :
      Value r assign none (.not :: s) (!b)
  /-- A parenthesis has the value of what it encloses. -/
  | group {s : Statement} {b : Bool} (inner : Value r assign (some .or) s b) :
      Value r assign none (.lparen :: (s ++ [.rparen])) b
  /-- A conjunction begins with a variable, a reference, a negation or a parenthesis. -/
  | conjunction {s : Statement} {b : Bool} (unary : Value r assign none s b) :
      Value r assign (some .and) s b
  /-- A conjunction that goes on is true if both sides are. -/
  | and {s t : Statement} {b c : Bool} (left : Value r assign (some .and) s b)
      (right : Value r assign none t c) : Value r assign (some .and) (s ++ .op .and :: t) (b && c)
  /-- An exclusive disjunction begins with a conjunction. -/
  | exclusive {s : Statement} {b : Bool} (conjunction : Value r assign (some .and) s b) :
      Value r assign (some .xor) s b
  /-- An exclusive disjunction that goes on is true if one side is and the other is not. -/
  | xor {s t : Statement} {b c : Bool} (left : Value r assign (some .xor) s b)
      (right : Value r assign (some .and) t c) :
      Value r assign (some .xor) (s ++ .op .xor :: t) (b ^^ c)
  /-- A disjunction begins with an exclusive disjunction. -/
  | disjunction {s : Statement} {b : Bool} (exclusive : Value r assign (some .xor) s b) :
      Value r assign (some .or) s b
  /-- A disjunction that goes on is true if one of the sides is. -/
  | or {s t : Statement} {b c : Bool} (left : Value r assign (some .or) s b)
      (right : Value r assign (some .xor) t c) :
      Value r assign (some .or) (s ++ .op .or :: t) (b || c)

section

variable {r : Registry} {assign : Letter → Bool} {level : Option Connective} {s : Statement}
  {b c : Bool} {d : Definition} {l : Letter}

/-- A chain begins with an operand of the next tighter level. -/
theorem Value.first {op : Connective} (operand : Value r assign op.tighter s b) :
    Value r assign (some op) s b := by
  cases op with
  | or => exact .disjunction operand
  | xor => exact .exclusive operand
  | and => exact .conjunction operand

/-- The truth function of a connective is that of its rule. -/
theorem Value.next {op : Connective} {t : Statement} (left : Value r assign (some op) s b)
    (right : Value r assign op.tighter t c) :
    Value r assign (some op) (s ++ .op op :: t) (op.apply b c) := by
  cases op with
  | or => exact .or left right
  | xor => exact .xor left right
  | and => exact .and left right

/-! ### From the value to the tree -/

/-- What has a value has, around the full expansions, a tree with the same value. -/
theorem Value.outlines (h : Value r assign level s b) :
    ∀ {bodies : Letter → Option Statement},
    (∀ f, .ref f ∈ s → ∃ df t, bodies f = some t ∧ r.find? f = some df ∧ r.Expands df t) →
    ∃ e n, Outlines bodies level s e n ∧ e.eval assign = b := by
  induction h with
  | var v =>
      intro bodies _
      exact ⟨.var v, 0, .var v, rfl⟩
  | @ref g d b stored _ ih =>
      intro bodies hrefs
      obtain ⟨df, t, hb, hdf, ht⟩ := hrefs g (List.mem_singleton_self _)
      rw [stored, Option.some.injEq] at hdf
      subst hdf
      cases ht with
      | @intro _ target body hstored hexpanded =>
          obtain ⟨e, n, he, hval⟩ := ih fun f hf =>
            ⟨target f, body f, rfl, hstored f hf, hexpanded f hf⟩
          exact ⟨e, n + 1, .ref hb he.derives, hval⟩
  | not _ ih =>
      intro bodies hrefs
      obtain ⟨e, n, he, hval⟩ := ih fun f hf => hrefs f (List.mem_cons_of_mem _ hf)
      refine ⟨.not e, n + 1, .not he, ?_⟩
      rw [Expr.eval, hval]
  | group _ ih =>
      intro bodies hrefs
      obtain ⟨e, n, he, hval⟩ := ih fun f hf => hrefs f (by simp [hf])
      exact ⟨e, n + 1, .group he, hval⟩
  | conjunction _ ih | exclusive _ ih | disjunction _ ih =>
      intro bodies hrefs
      obtain ⟨e, n, he, hval⟩ := ih hrefs
      exact ⟨e, n, .first he, hval⟩
  | and _ _ ihl ihr | xor _ _ ihl ihr | or _ _ ihl ihr =>
      intro bodies hrefs
      obtain ⟨el, m, hl, hvl⟩ := ihl fun f hf => hrefs f (List.mem_append_left _ hf)
      obtain ⟨er, n, hr, hvr⟩ := ihr fun f hf =>
        hrefs f (List.mem_append_right _ (List.mem_cons_of_mem _ hf))
      refine ⟨.binary _ el er, max m n, .next hl hr, ?_⟩
      rw [Expr.eval, hvl, hvr, Connective.apply]

/-! ### From the tree to the value -/

/-- Every body put in for a reference is derived by itself, and its tree has the value of the
function referred to. -/
def Grafted (r : Registry) (assign : Letter → Bool) (body : Letter → Statement) (s : Statement) :
    Prop :=
  ∀ f, .ref f ∈ s → ∃ d e n, r.find? f = some d ∧ Derives (some .or) (body f) e n ∧
    Value r assign (some .or) d.statement (e.eval assign)

theorem Grafted.mono {body : Letter → Statement} {s t : Statement} (h : Grafted r assign body s)
    (hsub : t ⊆ s) : Grafted r assign body t :=
  fun f hf => h f (hsub hf)

theorem Grafted.wellFilled {body : Letter → Statement} (h : Grafted r assign body s) :
    WellFilled (fun f => some (body f)) s := by
  intro f b hf hb
  rw [Option.some.injEq] at hb
  subst hb
  obtain ⟨_, e, n, -, hd, -⟩ := h f hf
  exact ⟨e, n, hd⟩

/-- A tree that a statement has around its bodies has the value of the statement. -/
theorem Outlines.value {body : Letter → Statement} {e : Expr} {n : Nat}
    (h : Outlines (fun f => some (body f)) level s e n) :
    Grafted r assign body s → Value r assign level s (e.eval assign) := by
  induction h with
  | var v =>
      intro _
      exact .var v
  | @ref f b e n filled inner =>
      intro hrefs
      obtain ⟨df, ef, nf, hdf, hd, hval⟩ := hrefs f (List.mem_singleton_self _)
      rw [Option.some.injEq] at filled
      subst filled
      obtain ⟨rfl, -⟩ := hd.unique inner
      exact .ref hdf hval
  | not _ ih =>
      intro hrefs
      exact .not (ih (hrefs.mono (List.subset_cons_self _ _)))
  | group _ ih =>
      intro hrefs
      refine .group (ih (hrefs.mono ?_))
      exact List.Subset.trans (List.subset_append_left _ _) (List.subset_cons_self _ _)
  | first _ ih =>
      intro hrefs
      exact .first (ih hrefs)
  | @next op s t el er m n _ _ ihl ihr =>
      intro hrefs
      have hright : t ⊆ s ++ .op op :: t :=
        List.Subset.trans (List.subset_cons_self _ _) (List.subset_append_right _ _)
      exact .next (ihl (hrefs.mono (List.subset_append_left _ _))) (ihr (hrefs.mono hright))

/-- A tree of a statement filled with well-formed bodies has the value of the statement. -/
theorem Derives.value {s : Statement} {body : Letter → Statement} {e : Expr} {n : Nat}
    (h : Derives level (s.fill fun f => some (body f)) e n) (hrefs : Grafted r assign body s) :
    Value r assign level s (e.eval assign) :=
  (h.outlines rfl hrefs.wellFilled).value hrefs

namespace Registry.Expands

/-- If what a function reaches is well formed when written out, a tree of the function
written out has the value of the function. -/
theorem value (h : r.Expands d s) : ∀ {l : Letter} {e : Expr} {n : Nat}, r.find? l = some d →
    (∀ f df t, r.Reaches l f → r.find? f = some df → r.Expands df t →
      ∃ e n, Derives (some .or) t e n) →
    Derives (some .or) s e n → Value r assign (some .or) d.statement (e.eval assign) := by
  induction h with
  | @intro d target body stored expanded ih =>
      intro l e n hd hreached he
      refine he.value fun f hf => ?_
      have hlf : r.Reaches l f := .of_mem hd hf
      obtain ⟨ef, nf, hef⟩ := hreached f _ _ hlf (stored f hf) (expanded f hf)
      have hval := ih f hf (stored f hf) (fun g dg t hg => hreached g dg t (hlf.trans hg)) hef
      exact ⟨target f, ef, nf, stored f hf, hef, hval⟩

/-- **Writing out preserves the value.**  If what a function reaches is well formed when
written out, the one value of the function is that of its tree. -/
theorem value_iff (h : r.Expands d s) {e : Expr} {n : Nat} (hd : r.find? l = some d)
    (hreached : ∀ f df t, r.Reaches l f → r.find? f = some df → r.Expands df t →
      ∃ e n, Derives (some .or) t e n)
    (he : Derives (some .or) s e n) :
    Value r assign (some .or) d.statement b ↔ b = e.eval assign := by
  constructor
  · intro hval
    cases h with
    | @intro _ target body stored expanded =>
        obtain ⟨e', n', he', hb⟩ := hval.outlines fun f hf =>
          ⟨target f, body f, rfl, stored f hf, expanded f hf⟩
        rw [← hb, (he'.derives.unique he).1]
  · rintro rfl
    exact h.value hd hreached he

end Registry.Expands

end

end Switching
