/-
What the rows of a table say.

A table that is shown has passed every stage: the functions were resolved, their
statements read, their common variables found.  Each output is then the value of a tree,
and the tree came from the full expansion of the function.  What the user wrote is
something else, a statement with references in it.  The main result is that the table
nevertheless shows what was written: an output is the value of the function as
`Switching.Proofs.Value` has it, under any assignment that gives the variables of the
table the inputs of the row.
-/
import Switching.Proofs.Malformed
import Switching.Proofs.Stages
import Switching.Proofs.Value

namespace Switching

/-- The value of an expression depends on its variables only. -/
theorem Expr.eval_congr {assign other : Letter → Bool} {e : Expr}
    (h : ∀ v ∈ e.leaves, assign v = other v) : e.eval assign = e.eval other := by
  induction e with
  | var v => exact h v (List.mem_singleton_self _)
  | not e ih => rw [eval, eval, ih h]
  | binary op l r ihl ihr =>
      rw [eval, eval, ihl fun v hv => h v (List.mem_append_left _ hv),
        ihr fun v hv => h v (List.mem_append_right _ hv)]

namespace TruthTable

variable {limit : Option Nat} {t : TruthTable}

/-! ### The way to a table -/

/-- The table of a single definition is over its variables. -/
theorem ofDefinitions_singleton (limit : Option Nat) (d : Definition) :
    (ofDefinitions limit [d]).outcome = (checkSize limit d.vars.size).bind fun _ =>
      (readTarget d).outcome.map fun target => ⟨d.vars, [target]⟩ := by
  rw [ofDefinitions_outcome, commonVars_singleton, readTargets_outcome, List.mapM_cons]
  cases (readTarget d).outcome <;> rfl

/-- Within the limit it is refused only if the statement cannot be read. -/
theorem ofDefinitions_of_fits {d : Definition} (h : Fits limit d.vars.size) :
    (ofDefinitions limit [d]).outcome =
      (readTarget d).outcome.map fun target => ⟨d.vars, [target]⟩ := by
  rw [ofDefinitions_singleton, checkSize_eq_ok h, Except.bind]

theorem ofDefinitions_singleton_eq_ok {d : Definition} :
    (ofDefinitions limit [d]).outcome = .ok t ↔
      ∃ e, checkSize limit d.vars.size = .ok () ∧ Expr.parse d.statement = .ok e ∧
        t = ⟨d.vars, [⟨d, e⟩]⟩ := by
  rw [ofDefinitions_singleton]
  cases checkSize limit d.vars.size with
  | error e => simp [Except.bind]
  | ok _ =>
      unfold readTarget
      cases Expr.parse d.statement with
      | error reason => simp [Except.bind, Except.map]
      | ok e => simp [Except.bind, Except.map, eq_comm]

/-- A single function has nobody to share a memory with. -/
theorem ofNames_singleton (r : Resolver) (limit : Option Nat) (c : Char) :
    (ofNames r limit [c]).outcome =
      (r.alone c).bind fun d => (ofDefinitions limit [d]).outcome := by
  rw [ofNames, Journaled.outcome_bind, Resolver.outcome_journaled]
  cases hd : r.registry.lookup c with
  | error e =>
      rw [Resolver.alone_of_lookup_error hd, Resolver.resolveNamed, hd]
      rfl
  | ok stored =>
      rw [Resolver.alone_of_lookup hd, Resolver.resolveNamed_cons_fst hd, Resolver.resolveNamed]
      cases (r.resolve stored ∅).1 <;> rfl

/-- A table of one function has the variables of the resolved definition and lists the
values of its tree. -/
theorem ofNames_singleton_eq_ok {r : Resolver} {c : Char} :
    (ofNames r limit [c]).outcome = .ok t ↔
      ∃ d d' e, r.registry.lookup c = .ok d ∧ (r.resolve d ∅).1 = .ok d' ∧
        checkSize limit d'.vars.size = .ok () ∧ Expr.parse d'.statement = .ok e ∧
        t = ⟨d'.vars, [⟨d', e⟩]⟩ := by
  have hbind : (ofNames r limit [c]).outcome = .ok t ↔
      ∃ d', r.alone c = .ok d' ∧ (ofDefinitions limit [d']).outcome = .ok t := by
    rw [ofNames_singleton]
    cases r.alone c <;> simp [Except.bind]
  simp only [hbind, Resolver.alone_eq_ok_iff, ofDefinitions_singleton_eq_ok]
  constructor
  · intro hex
    obtain ⟨d', ⟨d, hd, hd'⟩, e, h⟩ := hex
    exact ⟨d, d', e, hd, hd', h⟩
  · intro hex
    obtain ⟨d, d', e, hd, hd', h⟩ := hex
    exact ⟨d', ⟨d, hd, hd'⟩, e, h⟩

/-! ### Assignments and rows -/

theorem valueOf_map {vars : List Letter} {assign : Letter → Bool} {v : Letter} (hv : v ∈ vars) :
    valueOf vars (vars.map assign) v = assign v := by
  induction vars with
  | nil => cases hv
  | cons w vars ih =>
      rw [List.map_cons, valueOf]
      by_cases hvw : v = w
      · rw [hvw, valueOf?_cons_self, Option.getD_some]
      · rw [valueOf?_cons_of_ne hvw]
        exact ih ((List.mem_cons.mp hv).resolve_left hvw)

/-- The values of a row, one for each of different letters, make an assignment. -/
theorem map_valueOf : ∀ {vars : List Letter} {inputs : List Bool}, vars.Nodup →
    inputs.length = vars.length → vars.map (valueOf vars inputs) = inputs := by
  intro vars
  induction vars with
  | nil =>
      intro inputs _ hlen
      exact (List.eq_nil_of_length_eq_zero hlen).symm
  | cons v vars ih =>
      intro inputs hnodup hlen
      cases inputs with
      | nil => cases hlen
      | cons b inputs =>
          obtain ⟨hv, hnodup⟩ := List.nodup_cons.mp hnodup
          have hrest := ih hnodup (Nat.succ.inj hlen)
          have hsame : ∀ w ∈ vars, valueOf (v :: vars) (b :: inputs) w = valueOf vars inputs w := by
            intro w hw
            have hne : w ≠ v := fun h => hv (h ▸ hw)
            rw [valueOf, valueOf?_cons_of_ne hne, valueOf]
          have hfirst : valueOf (v :: vars) (b :: inputs) v = b := by
            rw [valueOf, valueOf?_cons_self, Option.getD_some]
          rw [List.map_cons, List.map_congr_left hsame, hrest, hfirst]

theorem mem_rows {row : Row} : row ∈ t.rows ↔ ∃ index < t.size, t.row index = row := by
  simp [rows]

theorem length_inputs (t : TruthTable) (index : Nat) :
    (t.inputs index).length = t.vars.letters.length := by
  simp [inputs, bits, LetterSet.size]

/-- **A table shows the values of what was written.**  If all that a function reaches can be
resolved and read, each output in the table of the function is its value, by its own
statement and those that it refers to, under the assignment of the row. -/
theorem output_eq_value {r : Resolver} {c : Char} {d : Definition} {row : Row}
    (hr : r.registry.Compiled) (hd : r.registry.lookup c = .ok d)
    (hreads : ∀ f df, r.registry.Reaches d.name f → r.registry.find? f = some df →
      ∃ df' e, (r.resolve df ∅).1 = .ok df' ∧ Expr.parse df'.statement = .ok e)
    (ht : (ofNames r limit [c]).outcome = .ok t) (hrow : row ∈ t.rows) :
    (∃ assign : Letter → Bool, t.vars.letters.map assign = row.inputs) ∧
    ∃ b, row.outputs = [b] ∧
      ∀ assign : Letter → Bool, t.vars.letters.map assign = row.inputs →
        ∀ b', Value r.registry assign (some .or) d.statement b' ↔ b' = b := by
  obtain ⟨d', d'', e, hd', hres, -, hparse, htable⟩ := ofNames_singleton_eq_ok.mp ht
  rw [hd, Except.ok.injEq] at hd'
  subst hd'
  have hstored := hr.find?_of_lookup hd
  obtain ⟨s, hs, -, rfl⟩ := (Resolver.resolve_eq_ok_iff hr hstored Resolver.recalls_empty).mp hres
  obtain ⟨n, he, -, -⟩ := Expr.parse_sound hparse
  have hreached : ∀ f df u, r.registry.Reaches d.name f → r.registry.find? f = some df →
      r.registry.Expands df u → ∃ e n, Derives (some .or) u e n := by
    intro f df u hf hdf hu
    obtain ⟨df', ef, hrun, hread⟩ := hreads f df hf hdf
    obtain ⟨v, hv, -, rfl⟩ := (Resolver.resolve_eq_ok_iff hr hdf Resolver.recalls_empty).mp hrun
    obtain ⟨nf, hef, -, -⟩ := Expr.parse_sound hread
    rw [hu.unique hv]
    exact ⟨ef, nf, hef⟩
  obtain ⟨index, -, rfl⟩ := mem_rows.mp hrow
  constructor
  · exact ⟨_, map_valueOf t.vars.nodup (t.length_inputs index)⟩
  · refine ⟨t.output index e, by simp [row, htable], ?_⟩
    intro assign hassign b'
    have hsame : e.eval assign = t.output index e := by
      refine Expr.eval_congr fun v hv => ?_
      have hin : v ∈ t.vars.letters := by
        rw [htable]
        exact Statement.mem_vars.mpr (he.var_mem_of_mem_leaves hv)
      have hinputs : t.vars.letters.map assign = t.inputs index := hassign
      rw [← hinputs, valueOf_map hin]
    rw [hs.value_iff hstored hreached he, hsame]

end TruthTable

/-! ### An example -/

namespace Resolver

/-- The function `f = b^a`. -/
def differing : Definition where
  name := .f
  expression := "b^a"
  statement := [.var .b, .op .xor, .var .a]
  vars := .ofList [.a, .b]
  nested := ∅

/-- The function `g = !a*b^!$f+!b`. -/
def threefold : Definition where
  name := .g
  expression := "!a*b^!$f+!b"
  statement := [.not, .var .a, .op .and, .var .b, .op .xor, .not, .ref .f, .op .or, .not, .var .b]
  vars := .ofList [.a, .b]
  nested := .ofList [.f]

/-- A registry with a function that has every connective and a reference between two of them. -/
def mixture : Registry :=
  (Registry.define ∅ differing).define threefold

theorem compiled_mixture : mixture.Compiled := by
  have hdiffering : Definition.compile 'f' "b^a" = .ok differing := rfl
  have hthreefold : Definition.compile 'g' "!a*b^!$f+!b" = .ok threefold := rfl
  exact (Registry.compiled_empty.define hdiffering).define hthreefold

theorem resolve_differing : (resolve ⟨mixture, 16⟩ differing ∅).1 = .ok differing := by
  rw [resolve, resolveFrom_of_isResolved rfl]

/-- The expansion of `g` is `!a*b^!(b^a)+!b`. -/
theorem resolve_threefold : (resolve ⟨mixture, 16⟩ threefold ∅).1 =
    .ok (threefold.writtenOut (threefold.statement.fill fun _ => some differing.statement)) := by
  have hd : mixture.find? threefold.name = some threefold := rfl
  have hdiffering : mixture.find? .f = some differing := rfl
  have hs : mixture.Expands threefold
      (threefold.statement.fill fun _ => some differing.statement) :=
    .of_single hdiffering (by simp [threefold]) (by simp [differing])
  refine (resolve_eq_ok_iff compiled_mixture hd recalls_empty).mpr ⟨_, hs, .inr ?_, rfl⟩
  unfold Allows
  decide

theorem parse_differing :
    Expr.parse differing.statement = .ok (.binary .xor (.var .b) (.var .a)) := by
  have hany : ∀ a b : Letter, Expr.parse [.var b, .op .xor, .var a] =
      .ok (.binary .xor (.var b) (.var a)) := by
    intro a b
    cbv
  exact hany .a .b

theorem parse_threefold :
    Expr.parse (threefold.statement.fill fun _ => some differing.statement) =
      .ok (.binary .or
        (.binary .xor (.binary .and (.not (.var .a)) (.var .b))
          (.not (.binary .xor (.var .b) (.var .a))))
        (.not (.var .b))) := by
  have hany : ∀ a b : Letter, Expr.parse [.not, .var a, .op .and, .var b, .op .xor, .not,
      .lparen, .var b, .op .xor, .var a, .rparen, .op .or, .not, .var b] =
      .ok (.binary .or
        (.binary .xor (.binary .and (.not (.var a)) (.var b))
          (.not (.binary .xor (.var b) (.var a))))
        (.not (.var b))) := by
    intro a b
    cbv
  exact hany .a .b

/-- Both functions of `mixture` are resolved within sixteen tokens and can be read. -/
theorem readable_mixture {f : Letter} {d : Definition} (h : mixture.find? f = some d) :
    ∃ d' e, (resolve ⟨mixture, 16⟩ d ∅).1 = .ok d' ∧ Expr.parse d'.statement = .ok e := by
  have hstored : d = threefold ∨ d = differing := by
    unfold mixture at h
    simp only [Registry.find?_define, Registry.find?_empty] at h
    split at h
    · exact .inl (Option.some.inj h).symm
    · split at h
      · exact .inr (Option.some.inj h).symm
      · cases h
  rcases hstored with rfl | rfl
  · exact ⟨_, _, resolve_threefold, parse_threefold⟩
  · exact ⟨_, _, resolve_differing, parse_differing⟩

end Resolver

namespace TruthTable

/-- In the last row of the table of `!a*b^!$f+!b`, where `a` and `b` are true, the value is that
of `!$f`, and the last operand alone would be false. -/
theorem output_eq_value_mixture : Resolver.mixture.Compiled ∧
    Resolver.mixture.lookup 'g' = .ok Resolver.threefold ∧
    (∀ f df, Resolver.mixture.Reaches Resolver.threefold.name f →
      Resolver.mixture.find? f = some df →
      ∃ df' e, (Resolver.resolve ⟨Resolver.mixture, 16⟩ df ∅).1 = .ok df' ∧
        Expr.parse df'.statement = .ok e) ∧
    ∃ t : TruthTable, (ofNames ⟨Resolver.mixture, 16⟩ none ['g']).outcome = .ok t ∧
      ⟨3, [true, true], [true]⟩ ∈ t.rows ∧
      Value Resolver.mixture (fun _ => true) (some .or) Resolver.threefold.statement true ∧
      ¬ Value Resolver.mixture (fun _ => true) (some .or) Resolver.threefold.statement false ∧
      Value Resolver.mixture (fun _ => true) (some .or) [.not, .var .b] false := by
  have hd : Resolver.mixture.lookup 'g' = .ok Resolver.threefold := rfl
  have hsize : ∀ n, checkSize none n = .ok () := fun _ => rfl
  have htable := ofNames_singleton_eq_ok.mpr
    ⟨_, _, _, hd, Resolver.resolve_threefold, hsize _, Resolver.parse_threefold, rfl⟩
  obtain ⟨t, ht, hvars, hrow⟩ : ∃ t : TruthTable,
      (ofNames ⟨Resolver.mixture, 16⟩ none ['g']).outcome = .ok t ∧ t.vars = .ofList [.a, .b] ∧
      ⟨3, [true, true], [true]⟩ ∈ t.rows :=
    ⟨_, htable, rfl, mem_rows.mpr ⟨3, by decide, rfl⟩⟩
  obtain ⟨-, b, hb, hvalue⟩ := output_eq_value Resolver.compiled_mixture hd
    (fun _ _ _ hf => Resolver.readable_mixture hf) ht hrow
  rw [hvars] at hvalue
  obtain rfl : true = b := (List.cons.inj hb).1
  have hiff := hvalue (fun _ => true) rfl
  refine ⟨Resolver.compiled_mixture, hd, fun _ _ _ hf => Resolver.readable_mixture hf, t, ht,
    hrow, (hiff true).mpr rfl, fun h => ?_, ?_⟩
  · cases (hiff false).mp h
  · exact .disjunction (.exclusive (.conjunction (.not (.var .b))))

end TruthTable

end Switching
