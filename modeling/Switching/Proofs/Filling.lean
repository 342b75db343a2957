/-
Replacing many references at once.

`substitute` lets one name give way to its body.  `fill` does so for as many names as
have a body, in one pass over the tokens, and is what any run of substitutions comes to:
one substitution is a filling, and a second filling after a first is one filling with the
bodies of both, provided that the bodies put in first have nothing left to fill.

A filling never makes a statement shorter.  What the size of a result bounds, it
therefore bounds at every stage on the way there.

The last part reads a filled statement backwards.  A place where it is cut in two comes
either from a place in the statement that was filled or from the inside of a body, and
if the parentheses of the bodies and of the part before the cut match it cannot be the
inside.  So if the bodies are sentences, a reading of the filled statement can be taken back
piece by piece to the statement as it stands: that is `Outlines`, the grammar with one more
rule for references.
-/
import Switching.Statement
import Switching.Proofs.Parentheses

namespace Switching.Statement

/-- A body in parentheses. -/
def enclosed (body : Statement) : Statement :=
  .lparen :: (body ++ [.rparen])

/-- What takes the place of one token where references to names with a body give way. -/
def filled (bodies : Letter → Option Statement) (t : Token) : Statement :=
  match t.refName?.bind bodies with
  | some body => enclosed body
  | none => [t]

/-- The statement with its body, in parentheses, for every reference to a name that has
one. -/
def fill (bodies : Letter → Option Statement) (s : Statement) : Statement :=
  s.flatMap (filled bodies)

section

variable {bodies others : Letter → Option Statement} {s t : Statement} {f : Letter}
  {body : Statement}

@[simp] theorem length_enclosed (body : Statement) :
    (enclosed body).length = body.length + 2 := by
  simp [enclosed]

@[simp] theorem mem_enclosed {t : Token} :
    t ∈ enclosed body ↔ t = .lparen ∨ t ∈ body ∨ t = .rparen := by
  simp [enclosed]

/-- A token gives way to a body or stays as it is. -/
theorem filled_cases (bodies : Letter → Option Statement) (t : Token) :
    (∃ f body, t = .ref f ∧ bodies f = some body ∧ filled bodies t = enclosed body) ∨
      (∀ f, t = .ref f → bodies f = none) ∧ filled bodies t = [t] := by
  unfold filled
  cases t with
  | ref f =>
      cases hb : bodies f with
      | some body => exact .inl ⟨f, body, rfl, hb, by simp [Token.refName?, hb]⟩
      | none =>
          refine .inr ⟨?_, by simp [Token.refName?, hb]⟩
          intro g hg
          cases hg
          exact hb
  | _ =>
      refine .inr ⟨?_, rfl⟩
      intro f hf
      cases hf

theorem filled_ref (h : bodies f = some body) : filled bodies (.ref f) = enclosed body := by
  simp [filled, Token.refName?, h]

@[simp] theorem fill_nil : fill bodies [] = [] := rfl

theorem fill_cons (t : Token) (s : Statement) :
    fill bodies (t :: s) = filled bodies t ++ fill bodies s :=
  List.flatMap_cons

theorem fill_ref_cons (h : bodies f = some body) (s : Statement) :
    fill bodies (.ref f :: s) = .lparen :: (body ++ .rparen :: fill bodies s) := by
  rw [fill_cons, filled_ref h]
  simp [enclosed]

@[simp] theorem fill_append (s t : Statement) :
    fill bodies (s ++ t) = fill bodies s ++ fill bodies t :=
  List.flatMap_append

/-- Only the bodies of the names referred to matter. -/
theorem fill_congr (h : ∀ f, .ref f ∈ s → bodies f = others f) :
    fill bodies s = fill others s := by
  induction s with
  | nil => rfl
  | cons t s ih =>
      rw [fill_cons, fill_cons, ih fun f hf => h f (List.mem_cons_of_mem _ hf)]
      congr 1
      cases t with
      | ref f => simp [filled, Token.refName?, h f (List.mem_cons_self ..)]
      | _ => rfl

/-- With no body for a name referred to, nothing happens. -/
theorem fill_eq_self (h : ∀ f, .ref f ∈ s → bodies f = none) : fill bodies s = s := by
  induction s with
  | nil => rfl
  | cons t s ih =>
      rw [fill_cons, ih fun f hf => h f (List.mem_cons_of_mem _ hf)]
      rcases filled_cases bodies t with ⟨f, body, rfl, hb, -⟩ | ⟨-, ht⟩
      · rw [h f (List.mem_cons_self ..)] at hb
        cases hb
      · rw [ht]
        rfl

theorem mem_fill {t : Token} : t ∈ fill bodies s ↔ ∃ u ∈ s, t ∈ filled bodies u :=
  List.mem_flatMap

/-- What a filled statement holds beside the signs of the parentheses put in: the tokens
that stayed and the tokens of the bodies. -/
theorem mem_fill_iff {t : Token} (hl : t ≠ .lparen) (hr : t ≠ .rparen) :
    t ∈ fill bodies s ↔ (t ∈ s ∧ ∀ f, t = .ref f → bodies f = none) ∨
      ∃ f body, .ref f ∈ s ∧ bodies f = some body ∧ t ∈ body := by
  rw [mem_fill]
  constructor
  · intro hex
    obtain ⟨u, hu, ht⟩ := hex
    rcases filled_cases bodies u with ⟨f, body, rfl, hb, hf⟩ | ⟨hnone, hf⟩
    · rw [hf, mem_enclosed] at ht
      exact .inr ⟨f, body, hu, hb, by simpa [hl, hr] using ht⟩
    · rw [hf, List.mem_singleton] at ht
      subst ht
      exact .inl ⟨hu, hnone⟩
  · intro hor
    rcases hor with ⟨ht, hnone⟩ | ⟨f, body, hf, hb, ht⟩
    · refine ⟨t, ht, ?_⟩
      rcases filled_cases bodies t with ⟨f, body, rfl, hb, -⟩ | ⟨-, hstay⟩
      · rw [hnone f rfl] at hb
        cases hb
      · rw [hstay]
        exact List.mem_singleton_self t
    · exact ⟨_, hf, by simp [filled_ref hb, ht]⟩

/-- References to a name that has no body stay as many as they are, if no body has any. -/
theorem count_ref_fill (hf : bodies f = none) (h : ∀ g b, bodies g = some b → .ref f ∉ b)
    (s : Statement) : (s.fill bodies).count (.ref f) = s.count (.ref f) := by
  induction s with
  | nil => rfl
  | cons t s ih =>
      rw [fill_cons, List.count_append, ih, ← List.singleton_append, List.count_append]
      congr 1
      rcases filled_cases bodies t with ⟨g, b, rfl, hb, hfilled⟩ | ⟨-, hfilled⟩
      · have hgf : g ≠ f := by
          rintro rfl
          rw [hf] at hb
          cases hb
        rw [hfilled, List.count_eq_zero_of_not_mem, List.count_eq_zero_of_not_mem]
        · simpa using Ne.symm hgf
        · simpa using h g b hb
      · rw [hfilled]

/-! ### One filling after another -/

/-- A substitution is a filling with one body. -/
theorem substitute_eq_fill (s : Statement) (f : Letter) (body : Statement) :
    s.substitute f body = s.fill (fun g => if g = f then some body else none) := by
  have same : replacement f body = filled (fun g => if g = f then some body else none) := by
    funext t
    unfold replacement filled
    cases t with
    | ref g =>
        by_cases hg : g = f
        · simp [Token.refName?, hg, enclosed]
        · simp [Token.refName?, hg]
    | _ => simp [Token.refName?]
  rw [substitute, fill, same]

/-- **Two fillings are one**, if the bodies of the first hold nothing that the second
would fill. -/
theorem fill_fill (h : ∀ f b, bodies f = some b → fill others b = b) :
    fill others (fill bodies s) = fill (fun f => (bodies f).or (others f)) s := by
  induction s with
  | nil => rfl
  | cons t s ih =>
      rw [fill_cons, fill_append, fill_cons, ih]
      congr 1
      cases t with
      | ref f =>
          cases hb : bodies f with
          | none => simp [filled, Token.refName?, hb, fill]
          | some b =>
              have hboth : (bodies f).or (others f) = some b := by simp [hb]
              have hleft : filled (fun f => (bodies f).or (others f)) (.ref f) = enclosed b :=
                filled_ref hboth
              rw [filled_ref hb, hleft, enclosed, fill_cons, fill_append, h f b hb]
              rfl
      | _ => rfl

/-- The bodies of some names only. -/
def among (bodies : Letter → Option Statement) (names : List Letter) (f : Letter) :
    Option Statement :=
  if f ∈ names then bodies f else none

theorem fill_among_nil (s : Statement) : s.fill (among bodies []) = s :=
  fill_eq_self fun _ _ => if_neg List.not_mem_nil

/-- Filling with the bodies of some names and then of others fills with all of them, if those
put in first refer to nothing. -/
theorem fill_among_append {names : List Letter}
    (h : ∀ f ∈ names, ∀ b, bodies f = some b → ∀ g, .ref g ∉ b) (s : Statement)
    (more : List Letter) : (s.fill (among bodies names)).fill (among bodies more) =
      s.fill (among bodies (names ++ more)) := by
  have hfilled : ∀ f b, among bodies names f = some b → b.fill (among bodies more) = b := by
    intro f b hb
    unfold among at hb
    split at hb
    · rename_i hf
      exact fill_eq_self fun g hg => absurd hg (h f hf b hb g)
    · cases hb
  rw [fill_fill hfilled]
  refine fill_congr fun f _ => ?_
  unfold among
  by_cases hf : f ∈ names
  · rw [if_pos hf, if_pos (List.mem_append_left _ hf)]
    cases bodies f <;> simp
  · simp [hf]

/-- Substituting a body is filling with that of one name. -/
theorem substitute_eq_fill_among (hf : bodies f = some body) (s : Statement) :
    s.substitute f body = s.fill (among bodies [f]) := by
  rw [substitute_eq_fill]
  refine fill_congr fun g _ => ?_
  unfold among
  by_cases hg : g = f
  · rw [if_pos hg, hg, if_pos (List.mem_singleton_self f), hf]
  · rw [if_neg hg, if_neg (by simpa using hg)]

/-! ### Sizes -/

theorem length_filled_pos (bodies : Letter → Option Statement) (t : Token) :
    0 < (filled bodies t).length := by
  unfold filled
  split <;> simp

/-- A filling makes no statement shorter. -/
theorem length_le_length_fill : s.length ≤ (fill bodies s).length := by
  induction s with
  | nil => exact Nat.le_refl _
  | cons t s ih =>
      have := length_filled_pos bodies t
      rw [fill_cons, List.length_append, List.length_cons]
      omega

/-- A filling that has anything to do makes the statement longer. -/
theorem length_lt_length_fill (hf : .ref f ∈ s) (hb : bodies f = some body) :
    s.length < (fill bodies s).length := by
  obtain ⟨u, v, rfl⟩ := List.append_of_mem hf
  have hu : u.length ≤ (fill bodies u).length := length_le_length_fill
  have hv : v.length ≤ (fill bodies v).length := length_le_length_fill
  rw [fill_append, fill_cons, filled_ref hb]
  simp only [List.length_append, List.length_cons, length_enclosed]
  omega

theorem eq_nil_of_fill (h : fill bodies s = []) : s = [] := by
  have hle : s.length ≤ (fill bodies s).length := length_le_length_fill
  rw [h] at hle
  exact List.eq_nil_of_length_eq_zero (Nat.le_zero.mp hle)

/-- A body stands in parentheses in what it has been put into. -/
theorem exists_fill_eq (hs : .ref f ∈ s) (hb : bodies f = some body) :
    ∃ a c, fill bodies s = a ++ .lparen :: (body ++ .rparen :: c) := by
  obtain ⟨u, v, rfl⟩ := List.append_of_mem hs
  refine ⟨fill bodies u, fill bodies v, ?_⟩
  rw [fill_append, fill_cons, filled_ref hb]
  simp [enclosed]

/-- What stands in parentheses is shorter than the whole. -/
theorem length_lt_of_enclosed {a c : Statement} (h : s = a ++ .lparen :: (body ++ .rparen :: c)) :
    body.length < s.length := by
  rw [h]
  simp only [List.length_append, List.length_cons]
  omega

/-- The size that is computed before a substitution is that of the result. -/
theorem length_substitute (s : Statement) (f : Letter) (body : Statement) :
    (s.substitute f body).length = s.occurrences f * (body.length + 1) + s.length := by
  unfold substitute occurrences
  induction s with
  | nil => simp
  | cons t s ih =>
      rw [List.flatMap_cons, List.length_append, ih, List.length_cons]
      by_cases ht : t = .ref f
      · rw [ht, List.count_cons_self, Nat.add_one_mul]
        simp [replacement]
        omega
      · rw [List.count_cons_of_ne (by simpa using ht)]
        simp [replacement, ht]
        omega

/-- A size that cannot be counted is taken for the largest count. -/
theorem getD_substitutedSize? (s : Statement) (f : Letter) (body : Statement) :
    (s.substitutedSize? f body).getD maxCount = min (s.substitute f body).length maxCount := by
  rw [length_substitute]
  unfold substitutedSize?
  by_cases h : s.occurrences f * (body.length + 1) + s.length ≤ maxCount
  · simp [h]
  · simp only [h, if_false, Option.getD_none]
    omega

/-! ### Parentheses -/

/-- Bodies whose parentheses match do not show in the count. -/
theorem openAfter_fill (hb : ∀ f body, .ref f ∈ s → bodies f = some body → body.Matched) :
    ∀ n, (fill bodies s).openAfter n = s.openAfter n := by
  induction s with
  | nil =>
      intro n
      rfl
  | cons t s ih =>
      intro n
      have hrest := ih fun f body hf => hb f body (List.mem_cons_of_mem _ hf)
      rcases filled_cases bodies t with ⟨f, body, rfl, hf, hfilled⟩ | ⟨-, hfilled⟩
      · have hbody := (hb f body (List.mem_cons_self ..) hf).enclosed
        rw [fill_cons, hfilled, openAfter_append, enclosed, hbody.openAfter, openAfter_ref]
        exact hrest n
      · have hcons : openAfter n (t :: s) = openAfter n ([t] ++ s) := rfl
        rw [fill_cons, hfilled, hcons, openAfter_append, openAfter_append]
        congr 1
        funext k
        exact hrest k

/-- A statement filled with such bodies has matching parentheses if it had them before. -/
theorem matched_fill_iff (hb : ∀ f body, .ref f ∈ s → bodies f = some body → body.Matched) :
    Matched (fill bodies s) ↔ s.Matched := by
  unfold Matched
  rw [openAfter_fill hb]

/-! ### Cutting a filled statement -/

/-- A filled statement that begins with anything but a parenthesis began with it before. -/
theorem fill_eq_cons {t : Token} (ht : t ≠ .lparen) {x : Statement} (h : fill bodies s = t :: x) :
    ∃ s', s = t :: s' ∧ fill bodies s' = x := by
  cases s with
  | nil => cases h
  | cons u s =>
      rw [fill_cons] at h
      rcases filled_cases bodies u with ⟨f, body, rfl, -, hf⟩ | ⟨-, hu⟩
      · rw [hf, enclosed, List.cons_append, List.cons.injEq] at h
        exact absurd h.1.symm ht
      · rw [hu, List.singleton_append, List.cons.injEq] at h
        obtain ⟨rfl, h⟩ := h
        exact ⟨s, rfl, h⟩

/-- A cut through a filled statement is between two tokens of the statement, or inside
the body of a reference. -/
theorem fill_eq_append {y : Statement} : ∀ {s x : Statement}, fill bodies s = x ++ y →
    (∃ a b, s = a ++ b ∧ fill bodies a = x ∧ fill bodies b = y) ∨
      ∃ a f b p q, s = a ++ .ref f :: b ∧ bodies f = some (p ++ q) ∧
        x = fill bodies a ++ .lparen :: p ∧ y = q ++ .rparen :: fill bodies b := by
  intro s
  induction s with
  | nil =>
      intro x h
      rw [fill_nil, List.nil_eq, List.append_eq_nil_iff] at h
      exact .inl ⟨[], [], rfl, h.1.symm, h.2.symm⟩
  | cons t s ih =>
      intro x h
      cases x with
      | nil => exact .inl ⟨[], t :: s, rfl, rfl, h⟩
      | cons u x =>
          rcases filled_cases bodies t with ⟨f, body, rfl, hb, -⟩ | ⟨-, ht⟩
          · rw [fill_ref_cons hb, List.cons_append, List.cons.injEq] at h
            obtain ⟨rfl, h⟩ := h
            -- the cut falls behind the body, or within it and the parenthesis that closes
            rcases List.append_eq_append_iff.mp h with ⟨d, rfl, hd⟩ | ⟨d, rfl, rfl⟩
            · cases d with
              | nil =>
                  refine .inr ⟨[], f, s, body, [], rfl, by simpa using hb, by simp, ?_⟩
                  exact hd.symm
              | cons u d =>
                  rw [List.cons_append, List.cons.injEq] at hd
                  obtain ⟨rfl, hd⟩ := hd
                  rcases ih hd with ⟨a, b, rfl, rfl, rfl⟩ | ⟨a, g, b, p, q, rfl, hg, rfl, rfl⟩
                  · exact .inl ⟨.ref f :: a, b, rfl, fill_ref_cons hb a, rfl⟩
                  · refine .inr ⟨.ref f :: a, g, b, p, q, rfl, hg, ?_, rfl⟩
                    rw [fill_ref_cons hb]
                    simp
            · exact .inr ⟨[], f, s, x, d, rfl, hb, rfl, rfl⟩
          · rw [fill_cons, ht, List.singleton_append, List.cons_append, List.cons.injEq] at h
            obtain ⟨rfl, h⟩ := h
            rcases ih h with ⟨a, b, rfl, rfl, rfl⟩ | ⟨a, g, b, p, q, rfl, hg, rfl, rfl⟩
            · exact .inl ⟨t :: a, b, rfl, by rw [fill_cons, ht]; rfl, rfl⟩
            · exact .inr ⟨t :: a, g, b, p, q, rfl, hg, by rw [fill_cons, ht]; rfl, rfl⟩

/-- **Where the parentheses of the bodies and of the first part match, the cut is between
two tokens of the statement.** -/
theorem fill_eq_append_of_matched {x y : Statement} (h : fill bodies s = x ++ y)
    (hx : x.Matched) (hb : ∀ f body, .ref f ∈ s → bodies f = some body → body.Matched) :
    ∃ a b, s = a ++ b ∧ fill bodies a = x ∧ fill bodies b = y := by
  rcases fill_eq_append h with hcut | ⟨a, f, b, p, q, rfl, hf, rfl, -⟩
  · exact hcut
  · exact absurd hx (hb f _ (by simp) hf).not_append_lparen

end

end Switching.Statement

namespace Switching

/-! ### Reading around the bodies -/

/-- `Outlines bodies level s e n`: read as it stands, where a reference is an operand with the
tree of its body, the statement `s` has the tree `e` and opens as much as it does filled. -/
inductive Outlines (bodies : Letter → Option Statement) :
    Option Connective → Statement → Expr → Nat → Prop
  /-- A variable is an operand and opens nothing. -/
  | var (v : Letter) : Outlines bodies none [.var v] (.var v) 0
  /-- A reference stands for its body in parentheses. -/
  | ref {f : Letter} {body : Statement} {e : Expr} {n : Nat} (filled : bodies f = some body)
      (inner : Derives (some .or) body e n) : Outlines bodies none [.ref f] e (n + 1)
  /-- A negation is open while its operand is read. -/
  | not {s : Statement} {e : Expr} {n : Nat} (operand : Outlines bodies none s e n) :
      Outlines bodies none (.not :: s) (.not e) (n + 1)
  /-- A parenthesis has the tree of what it encloses. -/
  | group {s : Statement} {e : Expr} {n : Nat} (inner : Outlines bodies (some .or) s e n) :
      Outlines bodies none (.lparen :: (s ++ [.rparen])) e (n + 1)
  /-- A chain begins with an operand of the next tighter level. -/
  | first {op : Connective} {s : Statement} {e : Expr} {n : Nat}
      (operand : Outlines bodies op.tighter s e n) : Outlines bodies (some op) s e n
  /-- A chain goes on with its connective and one more operand. -/
  | next {op : Connective} {s t : Statement} {l r : Expr} {m n : Nat}
      (left : Outlines bodies (some op) s l m) (right : Outlines bodies op.tighter t r n) :
      Outlines bodies (some op) (s ++ .op op :: t) (.binary op l r) (max m n)

/-- Every reference of the statement that gives way to a body gives way to a sentence. -/
def WellFilled (bodies : Letter → Option Statement) (s : Statement) : Prop :=
  ∀ f body, .ref f ∈ s → bodies f = some body → ∃ e n, Derives (some .or) body e n

section

variable {bodies : Letter → Option Statement} {level : Option Connective} {s t : Statement}
  {e : Expr} {n : Nat}

theorem WellFilled.mono (h : WellFilled bodies s) (hsub : t ⊆ s) : WellFilled bodies t :=
  fun f body hf => h f body (hsub hf)

theorem WellFilled.matched (h : WellFilled bodies s) :
    ∀ f body, .ref f ∈ s → bodies f = some body → body.Matched := by
  intro f body hf hb
  obtain ⟨_, _, hd⟩ := h f body hf hb
  exact hd.matched

/-- What can be read as it stands can be read filled. -/
theorem Outlines.derives (h : Outlines bodies level s e n) : Derives level (s.fill bodies) e n := by
  induction h with
  | var v => exact .var v
  | ref filled inner =>
      rw [Statement.fill_ref_cons filled]
      exact .group inner
  | not _ ih => exact .not ih
  | @group s e n _ ih =>
      have hfill : Statement.fill bodies (.lparen :: (s ++ [.rparen])) =
          .lparen :: (s.fill bodies ++ [.rparen]) := by
        rw [Statement.fill_cons, Statement.fill_append]
        rfl
      rw [hfill]
      exact .group ih
  | first _ ih => exact .first ih
  | next _ _ ihl ihr =>
      rw [Statement.fill_append]
      exact .next ihl ihr

/-- **A reading of a statement filled with sentences goes around the bodies**: no piece of it
can be cut out of the middle of one. -/
theorem Derives.outlines {x : Statement} (h : Derives level x e n) :
    ∀ {s : Statement}, s.fill bodies = x → WellFilled bodies s → Outlines bodies level s e n := by
  induction h with
  | var v =>
      intro s hs _
      obtain ⟨s', rfl, hs'⟩ := Statement.fill_eq_cons (by simp) hs
      rw [Statement.eq_nil_of_fill hs']
      exact .var v
  | not _ ih =>
      intro s hs hrefs
      obtain ⟨s', rfl, hs'⟩ := Statement.fill_eq_cons (by simp) hs
      exact .not (ih hs' (hrefs.mono (List.subset_cons_self _ _)))
  | @group x e n inner ih =>
      intro s hs hrefs
      cases s with
      | nil => cases hs
      | cons t s =>
          rcases Statement.filled_cases bodies t with ⟨f, body, rfl, hb, -⟩ | ⟨-, ht⟩
          · -- the parentheses were put around the body of a reference
            obtain ⟨ef, nf, hd⟩ := hrefs f body (List.mem_cons_self ..) hb
            rw [Statement.fill_ref_cons hb, List.cons.injEq] at hs
            obtain ⟨rfl, hs'⟩ := hd.matched.append_rparen_inj inner.matched hs.2
            rw [Statement.eq_nil_of_fill hs']
            exact .ref hb inner
          · -- the parentheses stand in the statement
            rw [Statement.fill_cons, ht, List.singleton_append, List.cons.injEq] at hs
            obtain ⟨rfl, hs⟩ := hs
            have hrest := hrefs.mono (List.subset_cons_self _ s)
            obtain ⟨a, b, rfl, ha, hb⟩ :=
              Statement.fill_eq_append_of_matched hs inner.matched hrest.matched
            obtain ⟨c, rfl, hc⟩ := Statement.fill_eq_cons (by simp) hb
            rw [Statement.eq_nil_of_fill hc]
            exact .group (ih ha (hrest.mono (List.subset_append_left _ _)))
  | first _ ih =>
      intro s hs hrefs
      exact .first (ih hs hrefs)
  | @next op x y el er m n left _ ihl ihr =>
      intro s hs hrefs
      obtain ⟨a, b, rfl, ha, hb⟩ :=
        Statement.fill_eq_append_of_matched hs left.matched hrefs.matched
      obtain ⟨c, rfl, hc⟩ := Statement.fill_eq_cons (by simp) hb
      have hright : c ⊆ a ++ .op op :: c :=
        List.Subset.trans (List.subset_cons_self _ _) (List.subset_append_right _ _)
      exact .next (ihl ha (hrefs.mono (List.subset_append_left _ _)))
        (ihr hc (hrefs.mono hright))

end

end Switching
