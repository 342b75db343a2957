/-
Targets of one table.

The targets of a table share its rows, and a row has values for variables that a target
does not mention.  The main result is that a target takes no notice of its neighbours:
its column holds, row by row, what the table of the target alone shows in the one row
that has the same values for the variables of that target.

A table is one of rows because every assignment of its variables is that of exactly one
row.  So a row restricted to fewer variables is a row of the smaller table, and the tree
of a target, which has no other variables, cannot tell the two apart.  The variables of
the table are the union of those of its targets and a target comes from its name alone, so
another order of the names gives the same rows, with the columns in that order.
-/
import Switching.Proofs.Bits
import Switching.Proofs.TruthTable

namespace Switching

/-- What corresponds to the element at a place stands at the same place. -/
theorem exists_of_forall₂_getElem? {α β : Type} {R : α → β → Prop} {xs : List α} {ys : List β}
    (h : List.Forall₂ R xs ys) {place : Nat} {x : α} (hx : xs[place]? = some x) :
    ∃ y, ys[place]? = some y ∧ R x y := by
  obtain ⟨hlt, rfl⟩ := List.getElem?_eq_some_iff.mp hx
  have hlt' : place < ys.length := h.length_eq ▸ hlt
  exact ⟨ys[place], List.getElem?_eq_getElem hlt', h.get hlt hlt'⟩

namespace TruthTable

/-- The value that a row gives to a variable. -/
def assigned (t : TruthTable) (row : Row) : Letter → Bool :=
  valueOf t.vars.letters row.inputs

/-- The row `own` gives to the variables of its table `small` the values that `row` gives
them. -/
def Restricts (t : TruthTable) (row : Row) (small : TruthTable) (own : Row) : Prop :=
  own ∈ small.rows ∧ ∀ v ∈ small.vars, small.assigned own v = t.assigned row v

section

variable {t small : TruthTable} {row own own' : Row} {target : Target}

/-! ### Every assignment is one row -/

theorem map_assigned (hrow : row ∈ t.rows) : t.vars.letters.map (t.assigned row) = row.inputs := by
  obtain ⟨index, -, rfl⟩ := mem_rows.mp hrow
  exact map_valueOf t.vars.nodup (t.length_inputs index)

/-- A row is known from the values that it gives to the variables. -/
theorem eq_of_assigned (hown : own ∈ t.rows) (hown' : own' ∈ t.rows)
    (h : ∀ v ∈ t.vars, t.assigned own v = t.assigned own' v) : own = own' := by
  have hinputs : own.inputs = own'.inputs := by
    rw [← map_assigned hown, ← map_assigned hown']
    exact List.map_congr_left h
  obtain ⟨index, hindex, rfl⟩ := mem_rows.mp hown
  obtain ⟨index', hindex', rfl⟩ := mem_rows.mp hown'
  rw [bits_inj hindex hindex' hinputs]

theorem exists_assigned (t : TruthTable) (assign : Letter → Bool) :
    ∃ row ∈ t.rows, ∀ v ∈ t.vars, t.assigned row v = assign v := by
  obtain ⟨index, hindex, hword⟩ := exists_bits (t.vars.letters.map assign)
  rw [List.length_map] at hindex hword
  refine ⟨t.row index, mem_rows.mpr ⟨index, hindex, rfl⟩, ?_⟩
  intro v hv
  have hinputs : (t.row index).inputs = t.vars.letters.map assign := hword
  rw [assigned, hinputs, valueOf_map hv]

/-- A row restricts to one row of a smaller table. -/
theorem exists_restricts (t : TruthTable) (row : Row) (small : TruthTable) :
    ∃ own, t.Restricts row small own ∧ ∀ own', t.Restricts row small own' → own' = own := by
  obtain ⟨own, hown, hassigned⟩ := small.exists_assigned (t.assigned row)
  refine ⟨own, ⟨hown, hassigned⟩, ?_⟩
  intro own' h
  exact eq_of_assigned h.1 hown fun v hv => (h.2 v hv).trans (hassigned v hv).symm

/-! ### Outputs -/

theorem column?_of_target {place : Nat} (htarget : t.targets[place]? = some target) :
    t.column? place = some ((List.range t.size).map fun index => t.output index target.tree) := by
  rw [column?, htarget, Option.map_some]

/-- What a row and the column of a target show is the value of the tree under the row. -/
theorem outputs_getElem? {place : Nat} (hrow : row ∈ t.rows)
    (htarget : t.targets[place]? = some target) :
    row.outputs[place]? = some (target.tree.eval (t.assigned row)) ∧
      ((List.range t.size).map fun index => t.output index target.tree)[row.index]? =
        some (target.tree.eval (t.assigned row)) := by
  obtain ⟨index, hindex, rfl⟩ := mem_rows.mp hrow
  constructor
  · rw [TruthTable.row, List.getElem?_map, htarget]
    rfl
  · have hplace : (t.row index).index < t.size := hindex
    rw [List.getElem?_map, List.getElem?_range hplace]
    rfl

/-- A column holds the outputs of the rows. -/
theorem column?_getElem? {place index : Nat} {column : List Bool}
    (h : t.column? place = some column) (hindex : index < t.size) :
    ∃ b, (t.row index).outputs[place]? = some b ∧ column[index]? = some b := by
  obtain ⟨target, htarget, rfl⟩ := Option.map_eq_some_iff.mp h
  exact ⟨_, outputs_getElem? (mem_rows.mpr ⟨index, hindex, rfl⟩) htarget⟩

variable {r : Resolver} {limit : Option Nat} {names : List Char} {c : Char}

/-- The tree of a function has only variables that the function is known to have. -/
theorem mem_vars_of_mem_leaves {d : Definition} {e : Expr} (hr : r.registry.Compiled)
    (hc : r.alone c = .ok d) (hparse : Expr.parse d.statement = .ok e) :
    ∀ v ∈ e.leaves, v ∈ d.vars := by
  intro v hv
  obtain ⟨n, he, -, -⟩ := Expr.parse_sound hparse
  rw [(Resolver.of_alone hr hc).2]
  exact Statement.mem_vars.mpr (he.var_mem_of_mem_leaves hv)

/-- The target of a name, in a table that has been given, and its table alone. -/
theorem exists_target (hr : r.registry.Compiled) (ht : (ofNames r limit names).outcome = .ok t)
    {place : Nat} (hc : names[place]? = some c) :
    ∃ target, t.targets[place]? = some target ∧ r.alone c = .ok target.definition ∧
      (∀ v ∈ target.definition.vars, v ∈ t.vars) ∧
      (∀ v ∈ target.tree.leaves, v ∈ target.definition.vars) ∧
      (ofNames r limit [c]).outcome = .ok ⟨target.definition.vars, [target]⟩ := by
  cases (outcome_eq_iff hr).mp ht with
  | listed resolved shared union fits read =>
      obtain ⟨target, htarget, halone⟩ := exists_of_forall₂_getElem? resolved hc
      have hmem := List.mem_of_getElem? htarget
      have hparse := read target hmem
      have hwithin : ∀ v ∈ target.definition.vars, v ∈ t.vars := fun v hv =>
        (union v).mpr ⟨_, List.mem_map_of_mem hmem, hv⟩
      have hfits : Fits limit target.definition.vars.size := fun max hmax =>
        Nat.le_trans (LetterSet.size_le_of_subset hwithin) (fits max hmax)
      refine ⟨target, htarget, halone, hwithin, mem_vars_of_mem_leaves hr halone hparse, ?_⟩
      rw [ofNames_singleton, halone]
      exact ofDefinitions_singleton_eq_ok.mpr ⟨_, checkSize_eq_ok hfits, hparse, rfl⟩

/-- The names of a table can be asked for in another order. -/
theorem exists_of_perm (hr : r.registry.Compiled) (ht : (ofNames r limit names).outcome = .ok t)
    {names' : List Char} (hperm : names.Perm names') :
    ∃ targets', t.targets.Perm targets' ∧
      (ofNames r limit names').outcome = .ok ⟨t.vars, targets'⟩ := by
  cases (outcome_eq_iff hr).mp ht with
  | listed resolved shared union fits read =>
      obtain ⟨targets', resolved', hperm'⟩ := List.perm_comp_forall₂ hperm.symm resolved
      have hmem : ∀ d, d ∈ targets'.map Target.definition ↔ d ∈ t.targets.map Target.definition :=
        fun d => (hperm'.map Target.definition).mem_iff
      refine ⟨targets', hperm'.symm, (outcome_eq_iff hr).mpr ?_⟩
      exact .listed resolved' (shared.congr hmem) (union.congr hmem) fits
        fun target htarget => read target (hperm'.mem_iff.mp htarget)

/-- **The targets of a table do not influence each other.**  A column shows what the table of
its target alone shows, in the one row with the same values for the variables of the target;
so it takes no notice of the other variables.  Another order of the targets gives the same
rows, and the columns in that order. -/
theorem columns_apart (hr : r.registry.Compiled) (ht : (ofNames r limit names).outcome = .ok t) :
    (∀ (place : Nat) (c : Char), names[place]? = some c → ∃ alone column,
      (ofNames r limit [c]).outcome = .ok alone ∧ (∀ v ∈ alone.vars, v ∈ t.vars) ∧
      t.column? place = some column ∧
      (∀ row ∈ t.rows, ∃ own b, t.Restricts row alone own ∧
        (∀ own', t.Restricts row alone own' → own' = own) ∧ own.outputs = [b] ∧
        row.outputs[place]? = some b ∧ column[row.index]? = some b) ∧
      ∀ row ∈ t.rows, ∀ row' ∈ t.rows,
        (∀ v ∈ alone.vars, t.assigned row v = t.assigned row' v) →
          row.outputs[place]? = row'.outputs[place]?) ∧
    ∀ names', names.Perm names' → ∃ t', (ofNames r limit names').outcome = .ok t' ∧
      t'.vars = t.vars ∧ t'.rows.map Row.inputs = t.rows.map Row.inputs ∧
      ∀ (place place' : Nat) (c : Char), names[place]? = some c → names'[place']? = some c →
        ∃ column, t.column? place = some column ∧ t'.column? place' = some column := by
  constructor
  · intro place c hc
    obtain ⟨target, htarget, -, hwithin, hleaves, halone⟩ := exists_target hr ht hc
    refine ⟨_, _, halone, hwithin, column?_of_target htarget, ?_, ?_⟩
    · intro row hrow
      obtain ⟨own, hown, hunique⟩ :=
        t.exists_restricts row ⟨target.definition.vars, [target]⟩
      have hsame : target.tree.eval (assigned ⟨target.definition.vars, [target]⟩ own) =
          target.tree.eval (t.assigned row) :=
        Expr.eval_congr fun v hv => hown.2 v (hleaves v hv)
      obtain ⟨houtput, hcolumn⟩ := outputs_getElem? hrow htarget
      refine ⟨own, _, hown, hunique, ?_, houtput, hcolumn⟩
      obtain ⟨index, -, rfl⟩ := mem_rows.mp hown.1
      rw [← hsame]
      rfl
    · intro row hrow row' hrow' hagree
      rw [(outputs_getElem? hrow htarget).1, (outputs_getElem? hrow' htarget).1]
      exact congrArg some (Expr.eval_congr fun v hv => hagree v (hleaves v hv))
  · intro names' hperm
    obtain ⟨targets', -, ht'⟩ := exists_of_perm hr ht hperm
    refine ⟨_, ht', rfl, ?_, ?_⟩
    · rw [rows, rows, List.map_map, List.map_map]
      rfl
    · intro place place' c hc hc'
      obtain ⟨target, htarget, -, -, -, halone⟩ := exists_target hr ht hc
      obtain ⟨target', htarget', -, -, -, halone'⟩ := exists_target hr ht' hc'
      rw [halone, Except.ok.injEq, TruthTable.mk.injEq, List.cons.injEq] at halone'
      obtain ⟨-, rfl, -⟩ := halone'
      exact ⟨_, column?_of_target htarget, column?_of_target htarget'⟩

end

/-- The function `g = b`. -/
def narrow : Definition where
  name := .g
  expression := "b"
  statement := [.var .b]
  vars := .ofList [.b]
  nested := ∅

theorem parse_narrow : Expr.parse narrow.statement = .ok (.var .b) := by
  have hany : ∀ b : Letter, Expr.parse [.var b] = .ok (.var b) := by
    intro b
    cbv
  exact hany .b

/-- A registry with a function of two variables and one of the second alone. -/
def sideBySide : Registry :=
  (Registry.define ∅ Resolver.inner).define narrow

theorem compiled_sideBySide : sideBySide.Compiled := by
  have hinner : Definition.compile 'f' "a+b" = .ok Resolver.inner := rfl
  have hnarrow : Definition.compile 'g' "b" = .ok narrow := rfl
  exact (Registry.compiled_empty.define hinner).define hnarrow

/-- On either side of `a+b` the column of `b` has the values of `b`, and where `a` alone is
true it shows what the table of `b` shows where nothing is. -/
theorem columns_apart_sideBySide : ∃ t t' alone own, sideBySide.Compiled ∧
    (ofNames ⟨sideBySide, 16⟩ (some 2) ['g', 'f']).outcome = .ok t ∧
    (ofNames ⟨sideBySide, 16⟩ (some 2) ['f', 'g']).outcome = .ok t' ∧
    (ofNames ⟨sideBySide, 16⟩ (some 2) ['g']).outcome = .ok alone ∧
    t'.column? 1 = some [false, true, false, true] ∧
    t.Restricts ⟨2, [true, false], [false, true]⟩ alone own ∧ own.outputs = [false] := by
  have ht : (ofNames ⟨sideBySide, 16⟩ (some 2) ['g', 'f']).outcome =
      .ok ⟨.ofList [.a, .b], [⟨narrow, .var .b⟩,
        ⟨Resolver.inner, .binary .or (.var .a) (.var .b)⟩]⟩ := by
    have hg : Resolver.alone ⟨sideBySide, 16⟩ 'g' = .ok narrow :=
      Resolver.alone_of_isResolved rfl rfl
    have hf : Resolver.alone ⟨sideBySide, 16⟩ 'f' = .ok Resolver.inner :=
      Resolver.alone_of_isResolved rfl rfl
    have hread : (readTargets [narrow, Resolver.inner]).outcome = .ok [⟨narrow, .var .b⟩,
        ⟨Resolver.inner, .binary .or (.var .a) (.var .b)⟩] :=
      readTargets_eq_ok_iff.mpr ⟨rfl, by simp [parse_narrow, Resolver.parse_inner]⟩
    rw [ofNames_of_forall₂ compiled_sideBySide (.cons hg (.cons hf .nil)),
      ofDefinitions_outcome, hread]
    rfl
  obtain ⟨hplaces, hperms⟩ := columns_apart compiled_sideBySide ht
  obtain ⟨alone, _, halone, -, -, hrows, -⟩ := hplaces 0 'g' rfl
  obtain ⟨own, b, hown, -, houtputs, hb, -⟩ :=
    hrows ⟨2, [true, false], [false, true]⟩ (mem_rows.mpr ⟨2, by decide, rfl⟩)
  obtain ⟨t', ht', -, -, hcolumns⟩ := hperms ['f', 'g'] (.swap 'f' 'g' [])
  obtain ⟨column, hcolumn, hcolumn'⟩ := hcolumns 0 1 'g' rfl rfl
  cases hb
  cases hcolumn
  exact ⟨_, t', alone, own, compiled_sideBySide, ht, ht', halone, hcolumn', hown, houtputs⟩

end TruthTable

end Switching
