/-
Malformed functions behind references.

A statement is read only when it has been written out, and a function referred to is
then nothing but tokens between two parentheses.  What cannot be read by itself can all
the same be part of something that can: the parentheses of `a)*(b` do not match, and
those that are put around it turn it into a product.

This is the only way.  Where the parentheses of the resolved statement match, they keep
to themselves and the outer ones are a wall around them, so a reading of the whole has a
reading of the part inside it, which opens less and is no deeper.  For everything that a
function reaches at once the question is one about the statements as they were written.
-/
import Switching.Proofs.Parsing
import Switching.Proofs.Resolution

namespace Switching

open Registry

section

variable {r : Registry} {d : Definition} {s : Statement} {e : Expr} {f l : Letter}

/-- What can be read has matching parentheses. -/
theorem Expr.matched_of_parse (h : Expr.parse s = .ok e) : s.Matched := by
  obtain ⟨n, hs, -, -⟩ := Expr.parse_sound h
  exact hs.matched

/-- What can be read can be read of every part in parentheses that match inside. -/
theorem Expr.parse_enclosed {a b c : Statement} (h : Expr.parse s = .ok e)
    (hs : s = a ++ .lparen :: (b ++ .rparen :: c)) (hb : b.Matched) :
    ∃ e', Expr.parse b = .ok e' := by
  obtain ⟨n, hd, hn, hdepth⟩ := Expr.parse_sound h
  obtain ⟨e', n', hd', hn', hdepth'⟩ := hd.of_enclosed hs hb
  exact ⟨e', Expr.parse_complete ⟨n', hd', by omega, by omega⟩⟩

namespace Registry

/-- Everything that `d` reaches, and `d` itself, has matching parentheses once it is
written out exactly if it has them as written. -/
theorem Expands.matched (h : r.Expands d s) (hd : r.find? l = some d)
    (hown : ∀ f df, f = l ∨ r.Reaches l f → r.find? f = some df → df.statement.Matched) :
    s.Matched := by
  induction h generalizing l with
  | @intro d target body stored expanded ih =>
      have hbodies : ∀ f b, .ref f ∈ d.statement → some (body f) = some b → b.Matched := by
        intro f b hf hb
        rw [Option.some.injEq] at hb
        subst hb
        have hlf : r.Reaches l f := .of_mem hd hf
        refine ih f hf (stored f hf) fun g dg hg => hown g dg (.inr ?_)
        rcases hg with rfl | hg
        · exact hlf
        · exact hlf.trans hg
      rw [Statement.matched_fill_iff hbodies]
      exact hown l d (.inl rfl) hd

/-- If what `d` refers to is matched when written out, `d` is as much matched as its own
statement. -/
theorem Expands.matched_iff (h : r.Expands d s)
    (hrefs : ∀ f df t, .ref f ∈ d.statement → r.find? f = some df → r.Expands df t → t.Matched) :
    s.Matched ↔ d.statement.Matched := by
  cases h with
  | @intro _ target body stored expanded =>
      refine Statement.matched_fill_iff fun f b hf hb => ?_
      rw [Option.some.injEq] at hb
      subst hb
      exact hrefs f (target f) (body f) hf (stored f hf) (expanded f hf)

end Registry

namespace Resolver

/-- **A function that can be read hides no malformed one but those whose parentheses do not
match.**  All that it reaches is resolved, and each can be read exactly if the parentheses
of its resolved statement match; all of them can exactly if the parentheses match in each
statement as it was written. -/
theorem parse_of_reaches_iff_matched {r : Resolver} {d d' : Definition}
    (hr : r.registry.Compiled) (hd : r.registry.find? l = some d)
    (hres : (r.resolve d ∅).1 = .ok d') (hparse : Expr.parse d'.statement = .ok e) :
    (∀ f df, r.registry.Reaches l f → r.registry.find? f = some df →
      ∃ df', (r.resolve df ∅).1 = .ok df' ∧
        ((∃ e', Expr.parse df'.statement = .ok e') ↔ df'.statement.Matched)) ∧
    ((∀ f df df', r.registry.Reaches l f → r.registry.find? f = some df →
      (r.resolve df ∅).1 = .ok df' → ∃ e', Expr.parse df'.statement = .ok e') ↔
        ∀ f df, r.registry.Reaches l f → r.registry.find? f = some df → df.statement.Matched) := by
  have hd' : r.Resolves d d' := (resolve_eq_ok_iff hr hd recalls_empty).mp hres
  -- the expansion of what is reached is a part in parentheses of the one that was read
  have hreached : ∀ f df, r.registry.Reaches l f → r.registry.find? f = some df →
      ∃ t, r.registry.Expands df t ∧ (r.resolve df ∅).1 = .ok (df.writtenOut t) ∧
        ((∃ e', Expr.parse t = .ok e') ↔ t.Matched) := by
    intro f df hf hdf
    obtain ⟨df', t, a, c, hdf', ht, hrest, hat⟩ := hd'.of_reaches hr hd hf
    rw [hdf, Option.some.injEq] at hdf'
    subst hdf'
    refine ⟨t, ht, (resolve_eq_ok_iff hr hdf recalls_empty).mpr hrest, ?_, ?_⟩
    · intro hex
      obtain ⟨e', he'⟩ := hex
      exact Expr.matched_of_parse he'
    · intro hmatched
      exact Expr.parse_enclosed hparse hat hmatched
  constructor
  · intro f df hf hdf
    obtain ⟨t, -, hrun, hiff⟩ := hreached f df hf hdf
    exact ⟨df.writtenOut t, hrun, hiff⟩
  · constructor
    · intro hall f df hf hdf
      obtain ⟨t, ht, hrun, hiff⟩ := hreached f df hf hdf
      have hmatched : t.Matched := hiff.mp (hall f df _ hf hdf hrun)
      refine (ht.matched_iff fun g dg u hg hdg hu => ?_).mp hmatched
      have hlg : r.registry.Reaches l g := hf.trans (.of_mem hdf hg)
      obtain ⟨v, hv, hrun, hiff⟩ := hreached g dg hlg hdg
      rw [hu.unique hv]
      exact hiff.mp (hall g dg _ hlg hdg hrun)
    · intro hall f df df' hf hdf hrun
      obtain ⟨t, ht, hrun', hiff⟩ := hreached f df hf hdf
      rw [hrun, Except.ok.injEq] at hrun'
      subst hrun'
      refine hiff.mpr (ht.matched hdf fun g dg hg hdg => ?_)
      rcases hg with rfl | hg
      · exact hall _ dg hf hdg
      · exact hall g dg (hf.trans hg) hdg

end Resolver

end

namespace Resolver

/-- The tree of `a+b`. -/
theorem parse_inner : Expr.parse inner.statement = .ok (.binary .or (.var .a) (.var .b)) := by
  have hany : ∀ a b : Letter, Expr.parse [.var a, .op .or, .var b] =
      .ok (.binary .or (.var a) (.var b)) := by
    intro a b
    cbv
  exact hany .a .b

/-- The tree of `a*!(a+b)+b*(a+b)`. -/
theorem parse_outer : Expr.parse (outer.statement.fill fun _ => some inner.statement) =
    .ok (.binary .or
      (.binary .and (.var .a) (.not (.binary .or (.var .a) (.var .b))))
      (.binary .and (.var .b) (.binary .or (.var .a) (.var .b)))) := by
  have hany : ∀ a b : Letter, Expr.parse [.var a, .op .and, .not, .lparen, .var a, .op .or,
      .var b, .rparen, .op .or, .var b, .op .and, .lparen, .var a, .op .or, .var b, .rparen] =
      .ok (.binary .or (.binary .and (.var a) (.not (.binary .or (.var a) (.var b))))
        (.binary .and (.var b) (.binary .or (.var a) (.var b)))) := by
    intro a b
    cbv
  exact hany .a .b

/-- Nothing is hidden in `twice`: what `g` refers to can be read, as its parentheses say. -/
theorem parse_of_reaches_twice : ∃ d' e, (resolve ⟨twice, 16⟩ outer ∅).1 = .ok d' ∧
    Expr.parse d'.statement = .ok e ∧ twice.Reaches outer.name inner.name ∧
    ∃ df', (resolve ⟨twice, 16⟩ inner ∅).1 = .ok df' ∧
      ((∃ e', Expr.parse df'.statement = .ok e') ↔ df'.statement.Matched) := by
  have hd : twice.find? outer.name = some outer := rfl
  have hreach : twice.Reaches outer.name inner.name := .of_mem hd (by decide)
  exact ⟨_, _, resolve_outer, parse_outer, hreach,
    (parse_of_reaches_iff_matched compiled_twice hd resolve_outer parse_outer).1 _ _ hreach rfl⟩

/-- The function `f = a)(b`. -/
def torn : Definition where
  name := .f
  expression := "a)(b"
  statement := [.var .a, .rparen, .op .and, .lparen, .var .b]
  vars := .ofList [.a, .b]
  nested := ∅

/-- The function `g = $f`. -/
def mended : Definition where
  name := .g
  expression := "$f"
  statement := [.ref .f]
  vars := ∅
  nested := .ofList [.f]

/-- A malformed function and one that refers to it. -/
def patched : Registry :=
  (Registry.define ∅ torn).define mended

/-- A function that cannot be read has a value through a reference. -/
theorem torn_parsed_when_mended :
    patched.Compiled ∧ patched.find? mended.name = some mended ∧
    patched.Reaches mended.name torn.name ∧ patched.find? torn.name = some torn ∧
    (∃ d' e, (resolve ⟨patched, defaultLimit⟩ mended ∅).1 = .ok d' ∧
      Expr.parse d'.statement = .ok e) ∧
    (resolve ⟨patched, defaultLimit⟩ torn ∅).1 = .ok torn ∧
    ¬ ∃ e, Expr.parse torn.statement = .ok e := by
  have htorn : Definition.compile 'f' "a)(b" = .ok torn := rfl
  have hmended : Definition.compile 'g' "$f" = .ok mended := rfl
  have hr : patched.Compiled := (compiled_empty.define htorn).define hmended
  have hf : patched.find? torn.name = some torn := rfl
  have hg : patched.find? mended.name = some mended := rfl
  have hexp : patched.Expands mended (mended.statement.fill fun _ => some torn.statement) :=
    .of_single hf (by simp [mended, torn]) (by simp [torn])
  have hrun : (resolve ⟨patched, defaultLimit⟩ mended ∅).1 =
      .ok (mended.writtenOut (mended.statement.fill fun _ => some torn.statement)) :=
    (resolve_eq_ok_iff hr hg recalls_empty).mpr
      ⟨_, hexp, .inr (by unfold Allows; decide), rfl⟩
  have hparse : ∀ a b : Letter, Expr.parse
      [.lparen, .var a, .rparen, .op .and, .lparen, .var b, .rparen] =
        .ok (.binary .and (.var a) (.var b)) := by
    intro a b
    cbv
  refine ⟨hr, hg, .of_mem hg (by decide), hf, ⟨_, _, hrun, hparse .a .b⟩, ?_, ?_⟩
  · exact (resolve_eq_ok_iff hr hf recalls_empty).mpr (.of_isResolved (hr.listed hf) rfl)
  · intro hex
    obtain ⟨e, he⟩ := hex
    exact absurd (Expr.matched_of_parse he) (by decide)

end Resolver

end Switching
