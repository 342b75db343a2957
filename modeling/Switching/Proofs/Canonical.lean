/-
What a definition lists is what its statement mentions.

A definition keeps its variables and the functions it refers to beside its statement, and
nothing but the code that fills them in keeps the two together.  Compiling reads them off
the tokens.  Resolving does not look at tokens again: variables are added set by set while
statements are put in for references, and at the end there is said to be no reference.
`Canonical` is what both have to keep up, together with the spacing of the statement.

That a resolved definition is canonical follows from what it is resolved to, since an
expansion has no references and its variables are read off again.  That nothing else is
ever noted as written out needs the walk: functions met on the way are completed before
the one that was asked for, and also if that is refused in the end.

In a table the variables are looked up by letter, and a letter that is not found would
count as false.  The trees of the targets have the variables of their definitions and the
table has all of these, so this does not happen.
-/
import Switching.Proofs.Columns
import Switching.Proofs.Spacing

namespace Switching

/-! ### Definitions -/

namespace Definition

/-- Some text was compiled to the definition. -/
def IsCompiled (d : Definition) : Prop :=
  ∃ c text, compile c text = .ok d

/-- What a definition lists is what its statement mentions, and the statement is spaced. -/
structure Canonical (d : Definition) : Prop where
  /-- The variables are the letters of the variable tokens. -/
  mem_vars_iff : ∀ v, v ∈ d.vars ↔ .var v ∈ d.statement
  /-- The functions referred to are the letters of the references. -/
  mem_nested_iff : ∀ f, f ∈ d.nested ↔ .ref f ∈ d.statement
  /-- It is resolved exactly if no token is a reference. -/
  isResolved_iff : d.isResolved = true ↔ d.statement.hasReferences = false
  /-- No operand follows directly on another. -/
  spaced : d.statement.Spaced

variable {d : Definition} {s : Statement}

theorem IsCompiled.listed (h : d.IsCompiled) : d.Listed := by
  obtain ⟨c, text, h⟩ := h
  exact (compile_eq_ok h).2

theorem IsCompiled.spaced (h : d.IsCompiled) : d.statement.Spaced := by
  obtain ⟨c, text, h⟩ := h
  obtain ⟨-, hscan, -, -⟩ := compile_eq_ok_iff.mp h
  have hstart : Statement.Spaced ([] : List Token).reverse := .nil
  exact Statement.spaced_of_scanFrom hstart hscan

theorem Listed.canonical (h : d.Listed) (hs : d.statement.Spaced) : d.Canonical where
  mem_vars_iff v := by rw [h.vars_eq, Statement.mem_vars]
  mem_nested_iff f := by rw [h.nested_eq, Statement.mem_references]
  isResolved_iff := by rw [h.isResolved_iff, Statement.hasReferences_eq_false_iff]
  spaced := hs

/-- What is written out to a statement without references lists what that mentions. -/
theorem listed_writtenOut (h : ∀ f, .ref f ∉ s) : (d.writtenOut s).Listed where
  vars_eq := rfl
  nested_eq := by
    ext f
    rw [Statement.mem_references]
    simp [writtenOut, h f]

end Definition

theorem Registry.Compiled.isCompiled {r : Registry} {l : Letter} {d : Definition}
    (hr : r.Compiled) (hd : r.find? l = some d) : d.IsCompiled := by
  obtain ⟨text, h⟩ := hr l d hd
  exact ⟨_, text, h⟩

theorem Registry.Expands.spaced {r : Registry} {d : Definition} {s : Statement}
    (h : r.Expands d s) (hr : r.Compiled) (hd : d.IsCompiled) : s.Spaced := by
  induction h with
  | @intro d target body stored expanded ih =>
      refine hd.spaced.fill fun f b hf hb => ?_
      rw [Option.some.injEq] at hb
      subst hb
      exact ih f hf (hr.isCompiled (stored f hf))

namespace Resolver

variable {r : Resolver} {d d' : Definition} {m : Memory}

/-- What a resolver remembers after some requests for compiled definitions. -/
inductive Served (r : Resolver) : Memory → Prop
  /-- There was no request yet. -/
  | nothing : Served r ∅
  /-- One more definition, stored or not, has been asked for, and was resolved or refused. -/
  | resolve {m : Memory} {d : Definition} (before : Served r m) (compiled : d.IsCompiled) :
      Served r (r.resolve d m).2

theorem Served.recalls (hr : r.registry.Compiled) (h : r.Served m) : r.Recalls m := by
  induction h with
  | nothing => exact recalls_empty
  | resolve _ hd ih => exact ((yields hr).1 [] _ _ hd.listed ih).2

/-- Whatever was asked for before, what is given is what the definition comes to. -/
theorem Served.resolves (hr : r.registry.Compiled) (hm : r.Served m) (hd : d.IsCompiled)
    (h : (r.resolve d m).1 = .ok d') : r.Resolves d d' :=
  ((yields hr).1 [] d m hd.listed (hm.recalls hr)).1 d' h

/-- What a compiled definition comes to is canonical and resolved. -/
theorem Resolves.canonical (hr : r.registry.Compiled) (hd : d.IsCompiled) (h : r.Resolves d d') :
    d'.Canonical ∧ d'.statement.hasReferences = false := by
  obtain ⟨s, hs, -, rfl⟩ := h
  have hspaced : (d.writtenOut s).statement.Spaced := hs.spaced hr hd
  exact ⟨(Definition.listed_writtenOut hs.ref_not_mem).canonical hspaced,
    Statement.hasReferences_eq_false_iff.mpr hs.ref_not_mem⟩

/-! ### The trail -/

/-- Whatever has been written out is what some compiled definition comes to. -/
def Wrote (r : Resolver) (m : Memory) : Prop :=
  ∀ d' ∈ m.trail, ∃ d : Definition, d.IsCompiled ∧ r.Resolves d d'

theorem Wrote.note (hm : r.Wrote m) (hd : d.IsCompiled) (h : r.Resolves d d') :
    r.Wrote (m.note d') := by
  intro d'' hd''
  rcases List.mem_append.mp hd'' with hd'' | hd''
  · exact hm d'' hd''
  · rw [List.mem_singleton.mp hd'']
    exact ⟨d, hd, h⟩

/-- Nothing else is written out by any of the three functions. -/
theorem wrote (hr : r.registry.Compiled) :
    (∀ path (d : Definition) m, d.IsCompiled → r.Recalls m → r.Wrote m →
      r.Wrote (r.resolveFrom path d m).2) ∧
    (∀ path d targets m, r.Recalls m → r.Wrote m → r.Wrote (r.inlineAll path d targets m).2) ∧
    (∀ path g f m, r.Recalls m → r.Wrote m → r.Wrote (r.fetch path g f m).2) := by
  refine r.run_induct
    (P := fun _ d m out => d.IsCompiled → r.Recalls m → r.Wrote m → r.Wrote out.2)
    (Q := fun _ _ _ m out => r.Recalls m → r.Wrote m → r.Wrote out.2)
    (R := fun _ _ _ m out => r.Recalls m → r.Wrote m → r.Wrote out.2)
    ?resolved ?cyclic ?refused ?done ?nil ?unfetched ?large ?inlined ?known ?missing ?failed
    ?fetched
  case resolved =>
    intro path d m _ _ _ hw
    exact hw
  case cyclic =>
    intro path d m _ _ _ _ hw
    exact hw
  case refused =>
    intro path d m _ _ e m' _ ih _ hm hw
    exact ih hm hw
  case done =>
    intro path d m hres hfresh whole m' hrun ih hd hm hw
    -- what is noted here is what the resolver gives for `d`, so it is what `d` comes to
    have hdone := ((yields hr).1 path d m hd.listed hm).1
    rw [resolveFrom_of_done hres hfresh hrun] at hdone
    exact (ih hm hw).note hd (hdone _ rfl)
  case nil =>
    intro path d m _ hw
    exact hw
  case unfetched =>
    intro path d m f targets e m' _ ih hm hw
    exact ih hm hw
  case large =>
    intro path d m f targets body m' _ e _ ih hm hw
    exact ih hm hw
  case inlined =>
    intro path d m f targets body m' hrun c _ ih ihrest hm hw
    -- the rest of the loop starts from a memory that is right because fetching left it so
    have hright := ((yields hr).2.2 path d.name f m hm).2
    rw [hrun] at hright
    exact ihrest hright (ih hm hw)
  case known =>
    intro path g f m done _ _ hw
    exact hw
  case missing =>
    intro path g f m _ _ _ hw
    exact hw
  case failed | fetched =>
    intro path g f m _ stored hstored _ m' _ ih hm hw
    exact ih (hr.isCompiled hstored) hm hw

theorem Served.wrote (hr : r.registry.Compiled) (h : r.Served m) : r.Wrote m := by
  induction h with
  | nothing => exact fun d' hd' => nomatch hd'
  | resolve before hd ih => exact (Resolver.wrote hr).1 [] _ _ hd (before.recalls hr) ih

theorem Served.resolveNamed (hr : r.registry.Compiled) :
    ∀ (names : List Char) {m : Memory}, r.Served m → r.Served (r.resolveNamed names m).2 := by
  intro names
  induction names with
  | nil => exact fun hm => hm
  | cons c names ih =>
      intro m hm
      rw [Resolver.resolveNamed]
      cases hd : r.registry.lookup c with
      | error e => exact hm
      | ok stored =>
          obtain ⟨l, -, hstored⟩ := Registry.lookup_eq_ok_iff.mp hd
          have hnext := hm.resolve (hr.isCompiled hstored)
          cases hrun : r.resolve stored m with
          | mk out m' =>
              rw [hrun] at hnext
              cases out with
              | error e => simpa only [hrun] using hnext
              | ok d =>
                  have hrest := ih hnext
                  simp only [hrun]
                  cases hnames : r.resolveNamed names m' with
                  | mk outs m'' =>
                      rw [hnames] at hrest
                      cases outs <;> exact hrest

end Resolver

namespace Definition

/-- What compiling gives, or resolving something compiled against compiled functions. -/
inductive Made : Definition → Prop
  /-- Compiled from a text. -/
  | compiled {d : Definition} (h : d.IsCompiled) : Made d
  /-- Resolved, whatever the resolver was asked for before. -/
  | resolved {r : Resolver} {d d' : Definition} {m : Memory} (hr : r.registry.Compiled)
      (hd : d.IsCompiled) (hm : r.Served m) (h : (r.resolve d m).1 = .ok d') : Made d'

theorem Made.canonical {d : Definition} (h : d.Made) : d.Canonical := by
  cases h with
  | compiled hd => exact hd.listed.canonical hd.spaced
  | resolved hr hd hm hres => exact ((hm.resolves hr hd hres).canonical hr hd).1

end Definition

/-! ### Tables -/

namespace TruthTable

variable {r : Resolver} {limit : Option Nat} {names : List Char} {ds : List Definition}
  {t : TruthTable}

theorem resolved_not_mem_readTargets (d : Definition) :
    .resolved d ∉ (readTargets ds).events := by
  induction ds with
  | nil => simp [readTargets]
  | cons d' ds ih =>
      have hone : .resolved d ∉ (readTarget d').events := by
        unfold readTarget
        split <;> simp
      rw [readTargets, Journaled.events_bind, List.mem_append, not_or]
      refine ⟨hone, ?_⟩
      cases (readTarget d').outcome with
      | error e => simp
      | ok target =>
          simp only [Journaled.events_bind, List.mem_append, not_or]
          refine ⟨ih, ?_⟩
          cases (readTargets ds).outcome <;> simp

theorem resolved_not_mem_ofDefinitions (d : Definition) :
    .resolved d ∉ (ofDefinitions limit ds).events := by
  unfold ofDefinitions
  simp only [Journaled.events_bind, Journaled.events_ofExcept, Journaled.outcome_ofExcept]
  cases commonVars ds with
  | error e => simp
  | ok vars =>
      simp only [List.nil_append]
      cases checkSize limit vars.size with
      | error e => simp
      | ok _ =>
          have hread : .resolved d ∉ (readTargets ds).events := resolved_not_mem_readTargets d
          cases (readTargets ds).outcome <;> simp [hread]

/-- What the journal of a table notes as written out. -/
theorem mem_trail_of_resolved {d : Definition} (h : .resolved d ∈ (ofNames r limit names).events) :
    d ∈ (r.resolveNamed names ∅).2.trail := by
  rw [ofNames, Journaled.events_bind, List.mem_append] at h
  rcases h with h | h
  · obtain ⟨d', hd', heq⟩ := List.mem_map.mp h
    cases heq
    exact hd'
  · rw [Resolver.outcome_journaled] at h
    cases hnames : (r.resolveNamed names ∅).1 with
    | error e =>
        rw [hnames] at h
        cases h
    | ok ds =>
        rw [hnames] at h
        exact absurd h (resolved_not_mem_ofDefinitions d)

/-- Every variable has a value if there are as many values as variables. -/
theorem exists_valueOf? {vars : List Letter} {v : Letter} (hv : v ∈ vars) :
    ∀ {inputs : List Bool}, inputs.length = vars.length →
      ∃ b, valueOf? vars inputs v = some b := by
  induction vars with
  | nil => cases hv
  | cons w vars ih =>
      intro inputs hlen
      cases inputs with
      | nil => cases hlen
      | cons b inputs =>
          by_cases hvw : v = w
          · exact ⟨b, by rw [hvw, valueOf?_cons_self]⟩
          · rw [valueOf?_cons_of_ne hvw]
            exact ih ((List.mem_cons.mp hv).resolve_left hvw) (Nat.succ.inj hlen)

/-- No target mentions a variable that the table does not have. -/
structure Closed (t : TruthTable) : Prop where
  /-- A tree has the variables of its definition. -/
  tree_vars : ∀ target ∈ t.targets, target.tree.vars = target.definition.vars
  /-- The variables of a definition are among those of the table. -/
  within : ∀ target ∈ t.targets, ∀ v ∈ target.definition.vars, v ∈ t.vars
  /-- Every variable that a tree asks for has a place in the table. -/
  placed : ∀ target ∈ t.targets, ∀ v ∈ target.tree.vars, v ∈ t.vars
  /-- A row has a value for every variable that a tree asks for, so none is read as `false`
  for want of one. -/
  assigned : ∀ row ∈ t.rows, ∀ target ∈ t.targets, ∀ v ∈ target.tree.vars,
    ∃ b, valueOf? t.vars.letters row.inputs v = some b

theorem closed_of_canonical (hunion : IsUnion t.vars (t.targets.map Target.definition))
    (hcanonical : ∀ target ∈ t.targets, target.definition.Canonical)
    (hread : ∀ target ∈ t.targets, Expr.parse target.definition.statement = .ok target.tree) :
    t.Closed := by
  have tree_vars : ∀ target ∈ t.targets, target.tree.vars = target.definition.vars := by
    intro target htarget
    obtain ⟨n, hd, -, -⟩ := Expr.parse_sound (hread target htarget)
    ext v
    rw [Expr.vars, LetterSet.mem_ofList, hd.mem_leaves_iff,
      (hcanonical target htarget).mem_vars_iff]
  have within : ∀ target ∈ t.targets, ∀ v ∈ target.definition.vars, v ∈ t.vars := by
    intro target htarget v hv
    exact (hunion v).mpr ⟨target.definition, List.mem_map_of_mem htarget, hv⟩
  have placed : ∀ target ∈ t.targets, ∀ v ∈ target.tree.vars, v ∈ t.vars := by
    intro target htarget v hv
    rw [tree_vars target htarget] at hv
    exact within target htarget v hv
  refine ⟨tree_vars, within, placed, ?_⟩
  intro row hrow target htarget v hv
  obtain ⟨index, -, rfl⟩ := mem_rows.mp hrow
  exact exists_valueOf? (placed target htarget v hv) (t.length_inputs index)

/-- A table of definitions has their common variables and their trees. -/
theorem stages_of_ofDefinitions (h : (ofDefinitions limit ds).outcome = .ok t) :
    commonVars ds = .ok t.vars ∧ (readTargets ds).outcome = .ok t.targets := by
  rw [ofDefinitions_outcome] at h
  cases hvars : commonVars ds with
  | error e => simp [hvars, Except.bind] at h
  | ok vars =>
      cases hsize : checkSize limit vars.size with
      | error e => simp [hvars, hsize, Except.bind] at h
      | ok _ =>
          cases hread : (readTargets ds).outcome with
          | error e => simp [hvars, hsize, hread, Except.bind, Except.map] at h
          | ok targets =>
              simp only [hvars, hsize, hread, Except.bind, Except.map, Except.ok.injEq] at h
              subst h
              exact ⟨rfl, rfl⟩

/-- A table of canonical definitions lists them in their order and is closed. -/
theorem closed_of_ofDefinitions (hcanonical : ∀ d ∈ ds, d.Canonical)
    (h : (ofDefinitions limit ds).outcome = .ok t) :
    t.targets.map Target.definition = ds ∧ t.Closed := by
  obtain ⟨hvars, hread⟩ := stages_of_ofDefinitions h
  obtain ⟨rfl, htrees⟩ := readTargets_eq_ok_iff.mp hread
  obtain ⟨-, hunion⟩ := commonVars_eq_ok_iff.mp hvars
  refine ⟨rfl, closed_of_canonical hunion ?_ htrees⟩
  exact fun target htarget => hcanonical _ (List.mem_map_of_mem htarget)

/-- Resolving by name gives what resolving gives. -/
theorem made_of_alone (hr : r.registry.Compiled) {c : Char} {d : Definition}
    (h : r.alone c = .ok d) : d.Made := by
  obtain ⟨stored, hlookup, hres⟩ := Resolver.alone_eq_ok_iff.mp h
  obtain ⟨l, -, hstored⟩ := Registry.lookup_eq_ok_iff.mp hlookup
  exact .resolved hr (hr.isCompiled hstored) .nothing hres

/-- The targets of a table of stored functions are what these are resolved to. -/
theorem made_of_ofNames (hr : r.registry.Compiled)
    (h : (ofNames r limit names).outcome = .ok t) :
    ∀ target ∈ t.targets, target.definition.Made := by
  cases (outcome_eq_iff hr).mp h with
  | listed resolved =>
      intro target htarget
      obtain ⟨place, hplace⟩ := List.getElem?_of_mem htarget
      obtain ⟨c, -, halone⟩ := exists_of_forall₂_getElem? resolved.flip hplace
      exact made_of_alone hr halone

theorem closed_of_ofNames (hr : r.registry.Compiled)
    (h : (ofNames r limit names).outcome = .ok t) : t.Closed := by
  have hmade := made_of_ofNames hr h
  cases (outcome_eq_iff hr).mp h with
  | listed _ _ union _ read =>
      exact closed_of_canonical union (fun target htarget => (hmade target htarget).canonical) read

/-- **What a definition lists is what its statement mentions, from compiling to the table.**
It is so of what is compiled and of what that is resolved to, whatever was asked of the
resolver before; whatever is noted as written out has no references left, in a table as
elsewhere; and no table, of definitions or of names, has a tree that asks for a variable
without a value. -/
theorem canonical_throughout (hr : r.registry.Compiled) :
    (∀ c text d, Definition.compile c text = .ok d → d.Canonical) ∧
    (∀ d m d', d.IsCompiled → r.Served m → (r.resolve d m).1 = .ok d' →
      d'.Canonical ∧ d'.isResolved = true) ∧
    (∀ m, r.Served m → ∀ d ∈ m.trail, d.statement.hasReferences = false) ∧
    (∀ limit ds t, (∀ d ∈ ds, d.Made) → (ofDefinitions limit ds).outcome = .ok t →
      t.targets.map Target.definition = ds ∧ t.Closed) ∧
    (∀ limit names t, (ofNames r limit names).outcome = .ok t →
      (∀ target ∈ t.targets, target.definition.Canonical) ∧ t.Closed) ∧
    ∀ limit names d, .resolved d ∈ (ofNames r limit names).events →
      d.statement.hasReferences = false := by
  have written : ∀ m, r.Served m → ∀ d ∈ m.trail, d.statement.hasReferences = false := by
    intro m hm d hd
    obtain ⟨d₀, hd₀, hres⟩ := hm.wrote hr d hd
    exact (hres.canonical hr hd₀).2
  refine ⟨?_, ?_, written, ?_, ?_, ?_⟩
  · intro c text d h
    have hd : d.IsCompiled := ⟨c, text, h⟩
    exact hd.listed.canonical hd.spaced
  · intro d m d' hd hm h
    obtain ⟨hcanonical, hnone⟩ := (hm.resolves hr hd h).canonical hr hd
    exact ⟨hcanonical, hcanonical.isResolved_iff.mpr hnone⟩
  · intro limit ds t hmade h
    exact closed_of_ofDefinitions (fun d hd => (hmade d hd).canonical) h
  · intro limit names t h
    exact ⟨fun target htarget => (made_of_ofNames hr h target htarget).canonical,
      closed_of_ofNames hr h⟩
  · intro limit names d h
    exact written _ (Resolver.Served.nothing.resolveNamed hr names) d (mem_trail_of_resolved h)

/-- The table of `g = a*!$f+b*$f` has one target and is closed. -/
theorem canonical_throughout_twice : Resolver.twice.Compiled ∧ ∃ t : TruthTable,
    (ofNames ⟨Resolver.twice, 16⟩ none ['g']).outcome = .ok t ∧ t.targets.length = 1 ∧
    t.Closed := by
  have hd : Resolver.twice.lookup 'g' = .ok Resolver.outer := rfl
  have hsize : ∀ n, checkSize none n = .ok () := fun _ => rfl
  have ht := ofNames_singleton_eq_ok.mpr
    ⟨_, _, _, hd, Resolver.resolve_outer, hsize _, Resolver.parse_outer, rfl⟩
  obtain ⟨-, -, -, -, hnames, -⟩ :=
    canonical_throughout (r := ⟨Resolver.twice, 16⟩) Resolver.compiled_twice
  exact ⟨Resolver.compiled_twice, _, ht, rfl, (hnames none ['g'] _ ht).2⟩

end TruthTable

end Switching
