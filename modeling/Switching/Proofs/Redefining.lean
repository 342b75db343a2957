/-
A function may be replaced by what it is resolved to.

Typed in, the statement that a function is resolved to gives a definition that refers to
nothing.  Stored under the same name it is resolved to itself, and so whatever refers to it
is resolved to the same as before.  What is shown here is that nobody can tell in another
way: a table or a map of any functions at all, of the one replaced, of such as refer to it
or of others, is the same text as before or is refused for the same reason.

The two runs do not go side by side all the time.  Where one of them resolves the function
the other finds it resolved, and what is remembered differs from then on.  But both come
back with the same statement and the same variables, and this is what
`Switching.Proofs.Memory` asks of two resolvers.  It remains to see that all the others are
resolved to the same as well: an expansion takes in the expansion of the function, and that
is what is stored now.
-/
import Switching.Proofs.Retyping

namespace Switching

namespace Resolver

/-- The resolver with a function stored in place of what was stored under its name. -/
def redefine (r : Resolver) (e : Definition) : Resolver :=
  ⟨r.registry.define e, r.limit⟩

/-- `e` is compiled, and the function stored under its name is resolved to it but for the
expression. -/
structure Replaces (r : Resolver) (e : Definition) : Prop where
  /-- Some text compiles to it. -/
  compiled : ∃ text, Definition.compile e.name.char text = .ok e
  /-- It refers to nothing. -/
  isResolved : e.isResolved = true
  /-- What is stored is resolved to the same statement. -/
  resolvesTo : ∃ expression, r.ResolvesTo e.name { e with expression }

section

variable {r : Resolver} {e x x' : Definition} {f : Letter} {s : Statement} {c : Char}

theorem Resolves.name_eq (h : r.Resolves x x') : x'.name = x.name := by
  obtain ⟨s, -, -, rfl⟩ := h
  rfl

theorem Resolves.nested_eq (h : r.Resolves x x') : x'.nested = ∅ := by
  obtain ⟨s, -, -, rfl⟩ := h
  rfl

theorem find?_redefine (h : f ≠ e.name) :
    (r.redefine e).registry.find? f = r.registry.find? f :=
  if_neg h

theorem find?_redefine_self : (r.redefine e).registry.find? e.name = some e :=
  if_pos rfl

/-- What a stored function is resolved to, typed in, may replace it. -/
theorem Resolves.replaces {l : Letter} (h : r.Resolves x x') (hr : r.registry.Compiled)
    (hx : r.registry.find? l = some x) : r.Replaces x'.retyped where
  compiled := ⟨_, (h.canonical hr (hr.isCompiled hx)).1.compile_typedWords⟩
  isResolved := LetterSet.isEmpty_iff.mpr h.nested_eq
  resolvesTo := by
    refine ⟨x'.expression, x, ?_, h⟩
    have hname : x'.retyped.name = l := h.name_eq.trans (hr.name_eq hx)
    rwa [hname]

namespace Replaces

theorem compiled_redefine (he : r.Replaces e) (hr : r.registry.Compiled) :
    (r.redefine e).registry.Compiled := by
  obtain ⟨text, htext⟩ := he.compiled
  exact hr.define htext

theorem listed (he : r.Replaces e) : e.Listed := by
  obtain ⟨text, htext⟩ := he.compiled
  exact (Definition.compile_eq_ok htext).2

/-! ### What is written out -/

/-- **Every full expansion is one after the replacement.** -/
theorem expands (he : r.Replaces e) (h : r.registry.Expands x s) :
    (r.redefine e).registry.Expands x s := by
  induction h with
  | @intro x target body stored expanded ih =>
      refine .of_fill fun f hf => ?_
      by_cases hname : f = e.name
      · obtain ⟨expression, hto⟩ := he.resolvesTo
        have hbody : r.registry.expansion? f = some (body f) :=
          Registry.expansion?_eq_some_iff.mpr ⟨_, stored f hf, expanded f hf⟩
        rw [hname, hto.expansion?_eq, Option.some.injEq] at hbody
        have hself : (r.redefine e).registry.Expands e e.statement :=
          .of_no_ref (he.listed.isResolved_iff.mp he.isResolved)
        rw [hname]
        exact ⟨e, e.statement, by rw [← hbody], find?_redefine_self, hself⟩
      · exact ⟨_, _, rfl, (find?_redefine hname).trans (stored f hf), ih f hf⟩

theorem resolvesTo_redefine (he : r.Replaces e) (hne : f ≠ e.name) (h : r.ResolvesTo f x) :
    (r.redefine e).ResolvesTo f x := by
  obtain ⟨stored, hstored, s, hs, hsize, rfl⟩ := h
  exact ⟨stored, (find?_redefine hne).trans hstored, s, he.expands hs, hsize, rfl⟩

/-- **Before and after the replacement the same comes of each function.** -/
theorem agrees (he : r.Replaces e) (hr : r.registry.Compiled) : r.Agrees (r.redefine e) where
  limit_eq := rfl
  compiled := he.compiled_redefine hr
  resolvesTo f x hx := by
    by_cases hf : f = e.name
    · obtain ⟨expression, hto⟩ := he.resolvesTo
      subst hf
      have hself : (r.redefine e).ResolvesTo e.name e :=
        ⟨e, find?_redefine_self, .of_isResolved he.listed he.isResolved⟩
      exact ⟨e, hself, by rw [hx.unique hto]; rfl⟩
    · exact ⟨x, he.resolvesTo_redefine hf hx, rfl⟩
  stored f := by
    by_cases hf : f = e.name
    · obtain ⟨expression, hto⟩ := he.resolvesTo
      subst hf
      exact .inr ⟨_, hto⟩
    · exact .inl (find?_redefine hf)

/-! ### Functions asked for by name -/

theorem alone_self (he : r.Replaces e) (hr : r.registry.Compiled) :
    (∃ expression, r.alone e.name.char = .ok { e with expression }) ∧
      (r.redefine e).alone e.name.char = .ok e := by
  obtain ⟨expression, stored, hstored, hres⟩ := he.resolvesTo
  have hlookup : r.registry.lookup e.name.char = .ok stored :=
    Registry.lookup_eq_ok_iff.mpr ⟨e.name, rfl, hstored⟩
  have hlookup' : (r.redefine e).registry.lookup e.name.char = .ok e :=
    Registry.lookup_eq_ok_iff.mpr ⟨e.name, rfl, find?_redefine_self⟩
  refine ⟨⟨expression, ?_⟩, alone_of_isResolved hlookup' he.isResolved⟩
  rw [alone_of_lookup hlookup]
  exact (resolve_eq_ok_iff hr hstored recalls_empty).mpr hres

theorem alone_of_ne (he : r.Replaces e) (hr : r.registry.Compiled) (hc : c ≠ e.name.char) :
    (r.redefine e).alone c = r.alone c := by
  refine (he.agrees hr).alone_eq hr (Registry.lookup_congr fun l hl => find?_redefine ?_)
  rintro rfl
  exact hc hl.symm

end Replaces

end

end Resolver

/-! ### Tables and maps -/

/-- The definition with the expression of `e` if it has the name of `e`. -/
def Definition.respelled (e d : Definition) : Definition :=
  if d.name = e.name then { d with expression := e.expression } else d

namespace Definition

@[simp] theorem name_respelled (e d : Definition) : (respelled e d).name = d.name := by
  unfold respelled
  split <;> rfl

@[simp] theorem statement_respelled (e d : Definition) :
    (respelled e d).statement = d.statement := by
  unfold respelled
  split <;> rfl

@[simp] theorem vars_respelled (e d : Definition) : (respelled e d).vars = d.vars := by
  unfold respelled
  split <;> rfl

end Definition

/-- **Each function comes to what it came to before**, or is refused as before; only the one
replaced shows another expression. -/
theorem Resolver.Replaces.alone_eq {r : Resolver} {e : Definition} (he : r.Replaces e)
    (hr : r.registry.Compiled) (c : Char) :
    (r.redefine e).alone c = (r.alone c).map (Definition.respelled e) := by
  by_cases hc : c = e.name.char
  · obtain ⟨⟨expression, hold⟩, hnew⟩ := he.alone_self hr
    rw [hc, hold, hnew, Except.map, Definition.respelled, if_pos rfl]
  · rw [he.alone_of_ne hr hc]
    cases hd : r.alone c with
    | error er => rfl
    | ok d =>
        have hname : d.name ≠ e.name := by
          intro hname
          exact hc (by rw [← hname, (of_alone hr hd).1])
        rw [Except.map, Definition.respelled, if_neg hname]

namespace TruthTable

variable {r : Resolver} {e : Definition} {t : TruthTable}

theorem names_respelled (e : Definition) (t : TruthTable) :
    (t.mapDefinitions (Definition.respelled e)).names = t.names := by
  simp [names, mapDefinitions, Function.comp_def]

/-- A table shows no expressions. -/
theorem render_respelled (e : Definition) (t : TruthTable) :
    (t.mapDefinitions (Definition.respelled e)).render = t.render := by
  have hlength : (t.mapDefinitions (Definition.respelled e)).targets.length = t.targets.length :=
    List.length_map ..
  have hvars : (t.mapDefinitions (Definition.respelled e)).vars = t.vars := rfl
  rw [render, render, header, header, names_respelled, hlength, hvars, rows_mapDefinitions]

theorem ofDefinitions_respelled (e : Definition) (limit : Option Nat) (ds : List Definition) :
    (ofDefinitions limit (ds.map (Definition.respelled e))).outcome =
      (ofDefinitions limit ds).outcome.map (mapDefinitions (Definition.respelled e)) := by
  have hread : ∀ d, (readTarget (Definition.respelled e d)).outcome =
      (readTarget d).outcome.map fun target =>
        ⟨Definition.respelled e target.definition, target.tree⟩ := by
    intro d
    simp only [readTarget, Definition.statement_respelled, Definition.name_respelled]
    cases Expr.parse d.statement <;> rfl
  have hreads : (readTargets (ds.map (Definition.respelled e))).outcome =
      (readTargets ds).outcome.map (List.map fun target =>
        ⟨Definition.respelled e target.definition, target.tree⟩) := by
    rw [readTargets_outcome, readTargets_outcome, List.mapM_map]
    exact mapM_of_map hread ds
  rw [ofDefinitions_outcome, ofDefinitions_outcome, hreads,
    commonVars_map (Definition.vars_respelled e)]
  cases commonVars ds with
  | error er => rfl
  | ok vars =>
      simp only [Except.bind]
      cases checkSize limit vars.size with
      | error er => rfl
      | ok _ => cases (readTargets ds).outcome <;> rfl

theorem ofNames_redefine (he : r.Replaces e) (hr : r.registry.Compiled) (limit : Option Nat)
    (names : List Char) : (ofNames (r.redefine e) limit names).outcome =
      (ofNames r limit names).outcome.map (mapDefinitions (Definition.respelled e)) := by
  rw [ofNames_outcome (he.compiled_redefine hr), ofNames_outcome hr, mapM_of_map (he.alone_eq hr)]
  cases names.mapM r.alone with
  | error er => rfl
  | ok ds => exact ofDefinitions_respelled e limit ds

end TruthTable

theorem KarnaughMap.ofTable?_respelled (e : Definition) (t : TruthTable) (place : Nat) :
    ofTable? (t.mapDefinitions (Definition.respelled e)) place = ofTable? t place := by
  have hvars : (t.mapDefinitions (Definition.respelled e)).vars = t.vars := rfl
  have htarget : (t.mapDefinitions (Definition.respelled e)).targets[place]? =
      t.targets[place]?.map fun target =>
        ⟨Definition.respelled e target.definition, target.tree⟩ := List.getElem?_map ..
  unfold ofTable? TruthTable.column?
  rw [hvars, htarget]
  cases t.targets[place]? with
  | none => rfl
  | some target =>
      simp only [Option.map_some, Definition.name_respelled]
      rfl

namespace Session

variable {config : Config} {r : Registry} {d d' e : Definition} {l : Letter}

theorem table_redefine (he : Resolver.Replaces ⟨r, config.maxStatementTokens⟩ e)
    (hr : r.Compiled) (targets : List Char) :
    (table ⟨config, r.define e⟩ targets).outcome = (table ⟨config, r⟩ targets).outcome := by
  have htable : (truthTable ⟨config, r.define e⟩ targets).outcome =
      (truthTable ⟨config, r⟩ targets).outcome.map
        (TruthTable.mapDefinitions (Definition.respelled e)) :=
    TruthTable.ofNames_redefine he hr _ targets
  rw [table_outcome, table_outcome, htable]
  cases (truthTable ⟨config, r⟩ targets).outcome with
  | error er => rfl
  | ok t => simp only [Except.map, TruthTable.render_respelled]

theorem karnaughMap_redefine (he : Resolver.Replaces ⟨r, config.maxStatementTokens⟩ e)
    (hr : r.Compiled) (c : Char) :
    (karnaughMap ⟨config, r.define e⟩ c).outcome = (karnaughMap ⟨config, r⟩ c).outcome := by
  have halone : (resolver ⟨config, r.define e⟩).alone c =
      ((resolver ⟨config, r⟩).alone c).map (Definition.respelled e) := he.alone_eq hr c
  rw [karnaughMap_outcome, karnaughMap_outcome, halone]
  cases (resolver ⟨config, r⟩).alone c with
  | error er => rfl
  | ok d =>
      have hone : [Definition.respelled e d] = [d].map (Definition.respelled e) := rfl
      simp only [Except.map, Except.bind, Definition.vars_respelled]
      split
      · rfl
      · rw [hone, TruthTable.ofDefinitions_respelled]
        cases (TruthTable.ofDefinitions none [d]).outcome with
        | error er => rfl
        | ok t =>
            simp only [Except.map, KarnaughMap.ofTable?_respelled]
            rfl

/-- **The expansion that is shown is an equivalent definition.**  What a function is resolved
to, shown and typed in under its name, compiles to that statement with its variables, and
refers to nothing.  If that is stored in place of the function, it is resolved to itself, and
no table and no map, of whatever functions, is another than before; nor is a refusal. -/
theorem redefine_shown {limit : Nat} (hr : r.Compiled) (hd : r.find? l = some d)
    (hres : (Resolver.resolve ⟨r, limit⟩ d ∅).1 = .ok d') :
    ∃ e, Definition.compile d.name.char (Text.typedWords d'.statement.toText) = .ok e ∧
      e.statement = d'.statement ∧ e.vars = d'.vars ∧ e.nested = ∅ ∧
      (Resolver.resolve ⟨r.define e, limit⟩ e ∅).1 = .ok e ∧
      (∀ max targets, (TruthTable.ofNames ⟨r.define e, limit⟩ max targets).outcome.map
          (fun t => (t.vars, t.names, t.rows)) =
        (TruthTable.ofNames ⟨r, limit⟩ max targets).outcome.map
          fun t => (t.vars, t.names, t.rows)) ∧
      ∀ config : Config, config.maxStatementTokens = limit →
        (define ⟨config, r⟩ d.name.char (Text.typedWords d'.statement.toText)).outcome =
          .ok ⟨config, r.define e⟩ ∧
        (∀ targets, (table ⟨config, r.define e⟩ targets).outcome =
          (table ⟨config, r⟩ targets).outcome) ∧
        ∀ c, (karnaughMap ⟨config, r.define e⟩ c).outcome =
            (karnaughMap ⟨config, r⟩ c).outcome ∧
          (kmap ⟨config, r.define e⟩ c).outcome = (kmap ⟨config, r⟩ c).outcome := by
  have hresolves := (Resolver.resolve_eq_ok_iff hr hd Resolver.recalls_empty).mp hres
  have he := hresolves.replaces hr hd
  have hnested : d'.nested = ∅ := hresolves.nested_eq
  have hcompile := (hresolves.canonical hr (hr.isCompiled hd)).1.compile_typedWords
  rw [hresolves.name_eq] at hcompile
  refine ⟨d'.retyped, hcompile, rfl, rfl, hnested, ?itself, ?tables, ?shown⟩
  case itself => rw [Resolver.resolve, Resolver.resolveFrom_of_isResolved he.isResolved]
  case tables =>
    intro max targets
    have htable := TruthTable.ofNames_redefine he hr max targets
    rw [Resolver.redefine] at htable
    rw [htable]
    cases (TruthTable.ofNames ⟨r, limit⟩ max targets).outcome with
    | error er => rfl
    | ok t =>
        simp only [Except.map, TruthTable.names_respelled, TruthTable.rows_mapDefinitions]
        rfl
  case shown =>
    rintro config rfl
    refine ⟨?_, fun targets => table_redefine he hr targets, fun c => ?_⟩
    · rw [define_outcome, changed, hcompile, Except.map]
    have hmap := karnaughMap_redefine he hr c
    exact ⟨hmap, by rw [kmap_outcome, kmap_outcome, hmap]⟩

/-- What is shown of `g = a*!$f+b*$f` is stored in its place. -/
theorem redefine_shown_twice : Resolver.twice.Compiled ∧
    Resolver.twice.find? .g = some Resolver.outer ∧
    ∃ e, Definition.compile 'g' "a * ! ( a + b ) + b * ( a + b )" = .ok e ∧ e.nested = ∅ ∧
      ∀ targets, (table ⟨⟨8, 16, 2000, false⟩, Resolver.twice.define e⟩ targets).outcome =
        (table ⟨⟨8, 16, 2000, false⟩, Resolver.twice⟩ targets).outcome := by
  have hd : Resolver.twice.find? .g = some Resolver.outer := rfl
  obtain ⟨e, hcompile, -, -, hnested, -, -, hshown⟩ :=
    redefine_shown Resolver.compiled_twice hd Resolver.resolve_outer
  have htext : Text.typedWords (Resolver.outer.writtenOut (Resolver.outer.statement.fill
      fun _ => some Resolver.inner.statement)).statement.toText =
        "a * ! ( a + b ) + b * ( a + b )" := by
    decide +kernel
  rw [htext] at hcompile
  exact ⟨Resolver.compiled_twice, hd, e, hcompile, hnested, (hshown _ rfl).2.1⟩

end Session

end Switching
