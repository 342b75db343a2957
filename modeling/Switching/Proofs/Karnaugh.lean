/-
Karnaugh maps and truth tables.

A map comes about in its own way, by another resolution and from a table without a limit,
and puts the values in another order.  The main result is that it shows what the table of
the same function shows, or is refused for the same reason.

Two things have to be seen.  The layout is one of numbers: the index in a cell has the code
words of its two sides for its digits, so the cells run through all indices, each once, and
a step along one side changes one digit.  And a statement that can be read has a variable,
so no map is ever refused for having none.
-/
import Switching.Proofs.Columns
import Switching.Proofs.History

namespace Switching

/-! ### The layout -/

namespace Grid

/-- The place is in the map. -/
def InRange (g : Grid) (i j : Nat) : Prop :=
  i < g.rows ∧ j < g.cols

/-- The cells stand side by side or one above the other; opposite edges touch. -/
def Neighbours (g : Grid) (i j i' j' : Nat) : Prop :=
  (i = i' ∧ Beside g.cols j j') ∨ (Beside g.rows i i' ∧ j = j')

/-- The map shows the values of the target at a place of a table. -/
structure Shows (g : Grid) (t : TruthTable) (place : Nat) : Prop where
  /-- The variables are those of the table, in their order. -/
  vars_eq : g.rowVars ++ g.colVars = t.vars.letters
  /-- A row of the table is shown in one cell. -/
  shown : ∀ row ∈ t.rows, ∃ i j, (g.InRange i j ∧ g.index i j = row.index) ∧
    ∀ i' j', g.InRange i' j' → g.index i' j' = row.index → i' = i ∧ j' = j
  /-- A cell shows the value of the target in a row. -/
  cell : ∀ i j, g.InRange i j → ∃ row ∈ t.rows, row.index = g.index i j ∧
    row.outputs[place]? = some (g.value i j) ∧ g.value? i j = some (g.value i j)
  /-- Neighbours show rows that differ in one variable. -/
  neighbours : ∀ i j i' j', g.InRange i j → g.InRange i' j' → (i, j) ≠ (i', j') →
    g.Neighbours i j i' j' → ∀ row ∈ t.rows, ∀ row' ∈ t.rows,
      row.index = g.index i j → row'.index = g.index i' j' →
        DifferInOne row.inputs row'.inputs

section

variable {g : Grid} {i j i' j' n : Nat}

/-- The map has no more variables than an index has digits. -/
def Small (g : Grid) : Prop :=
  g.rowVars.length + g.colVars.length ≤ 64

theorem index_eq (hg : g.Small) (h : g.InRange i j) :
    g.index i j = 2 ^ g.colVars.length * gray i + gray j := by
  have hrow : gray i < 2 ^ g.rowVars.length := gray_lt h.1
  have hcol : gray j < 2 ^ g.colVars.length := gray_lt h.2
  have hfits : gray i <<< g.colVars.length < maxCount + 1 := by
    calc gray i <<< g.colVars.length = gray i * 2 ^ g.colVars.length := Nat.shiftLeft_eq ..
      _ < 2 ^ g.rowVars.length * 2 ^ g.colVars.length :=
        Nat.mul_lt_mul_of_pos_right hrow (Nat.two_pow_pos _)
      _ = 2 ^ (g.rowVars.length + g.colVars.length) := (Nat.pow_add ..).symm
      _ ≤ 2 ^ 64 := Nat.pow_le_pow_right (by decide) hg
  rw [index, Nat.mod_eq_of_lt hfits, ← Nat.shiftLeft_add_eq_or_of_lt hcol, Nat.shiftLeft_eq,
    Nat.mul_comm]

theorem index_lt (hg : g.Small) (h : g.InRange i j) :
    g.index i j < 2 ^ (g.rowVars.length + g.colVars.length) := by
  have hrow : gray i < 2 ^ g.rowVars.length := gray_lt h.1
  have hcol : gray j < 2 ^ g.colVars.length := gray_lt h.2
  rw [index_eq hg h, Nat.pow_add, Nat.mul_comm (2 ^ g.rowVars.length)]
  calc 2 ^ g.colVars.length * gray i + gray j
      < 2 ^ g.colVars.length * gray i + 2 ^ g.colVars.length := Nat.add_lt_add_left hcol _
    _ = 2 ^ g.colVars.length * (gray i + 1) := (Nat.mul_succ ..).symm
    _ ≤ 2 ^ g.colVars.length * 2 ^ g.rowVars.length := Nat.mul_le_mul_left _ hrow

/-- No index is shown in two cells. -/
theorem index_inj (hg : g.Small) (h : g.InRange i j) (h' : g.InRange i' j')
    (heq : g.index i j = g.index i' j') : i = i' ∧ j = j' := by
  have hcol : gray j < 2 ^ g.colVars.length := gray_lt h.2
  have hcol' : gray j' < 2 ^ g.colVars.length := gray_lt h'.2
  rw [index_eq hg h, index_eq hg h'] at heq
  constructor
  · refine gray_inj h.1 h'.1 ?_
    have hdiv := congrArg (· / 2 ^ g.colVars.length) heq
    simpa [Nat.mul_add_div (Nat.two_pow_pos _), Nat.div_eq_of_lt hcol,
      Nat.div_eq_of_lt hcol'] using hdiv
  · refine gray_inj h.2 h'.2 ?_
    have hmod := congrArg (· % 2 ^ g.colVars.length) heq
    simpa [Nat.mul_add_mod, Nat.mod_eq_of_lt hcol, Nat.mod_eq_of_lt hcol'] using hmod

/-- Every index is shown in a cell. -/
theorem exists_index (hg : g.Small) (hn : n < 2 ^ (g.rowVars.length + g.colVars.length)) :
    ∃ i j, g.InRange i j ∧ g.index i j = n := by
  have hrow : n / 2 ^ g.colVars.length < 2 ^ g.rowVars.length :=
    Nat.div_lt_of_lt_mul (by rwa [Nat.mul_comm, ← Nat.pow_add])
  obtain ⟨i, hi, hgi⟩ := exists_gray hrow
  obtain ⟨j, hj, hgj⟩ := exists_gray (Nat.mod_lt n (Nat.two_pow_pos g.colVars.length))
  refine ⟨i, j, ⟨hi, hj⟩, ?_⟩
  rw [index_eq hg ⟨hi, hj⟩, hgi, hgj, Nat.div_add_mod]

/-- The indices in neighbouring cells differ in one digit. -/
theorem oneApart_index (hg : g.Small) (h : g.InRange i j) (h' : g.InRange i' j')
    (hne : (i, j) ≠ (i', j')) (hnext : g.Neighbours i j i' j') :
    OneApart (g.index i j) (g.index i' j') := by
  rw [index_eq hg h, index_eq hg h']
  rcases hnext with ⟨rfl, hbeside⟩ | ⟨hbeside, rfl⟩
  · have hjj : j ≠ j' := fun hjj => hne (by rw [hjj])
    exact (oneApart_gray h.2 h'.2 hjj hbeside).low (gray_lt h.2) (gray_lt h'.2) _
  · have hii : i ≠ i' := fun hii => hne (by rw [hii])
    exact (oneApart_gray h.1 h'.1 hii hbeside).high (gray_lt h.2)

/-! ### What the cells show -/

variable {t : TruthTable} {place : Nat}

theorem size_eq (hvars : g.rowVars ++ g.colVars = t.vars.letters) :
    t.size = 2 ^ (g.rowVars.length + g.colVars.length) := by
  rw [← List.length_append, hvars]
  rfl

/-- A map with the variables and the values of a table shows it. -/
theorem shows (hvars : g.rowVars ++ g.colVars = t.vars.letters)
    (hvalues : t.column? place = some g.values) (hg : g.Small) : g.Shows t place where
  vars_eq := hvars
  shown := by
    intro row hrow
    obtain ⟨index, hlt, rfl⟩ := TruthTable.mem_rows.mp hrow
    rw [size_eq hvars] at hlt
    obtain ⟨i, j, hij, hindex⟩ := exists_index hg hlt
    refine ⟨i, j, ⟨hij, hindex⟩, ?_⟩
    intro i' j' hij' hindex'
    exact index_inj hg hij' hij (hindex'.trans hindex.symm)
  cell := by
    intro i j hij
    have hlt : g.index i j < t.size := by
      rw [size_eq hvars]
      exact index_lt hg hij
    obtain ⟨b, houtput, hvalue⟩ := TruthTable.column?_getElem? hvalues hlt
    have hshown : g.value i j = b := by rw [value, value?, hvalue, Option.getD_some]
    rw [← hshown] at houtput hvalue
    exact ⟨_, TruthTable.mem_rows.mpr ⟨_, hlt, rfl⟩, rfl, houtput, hvalue⟩
  neighbours := by
    intro i j i' j' hij hij' hne hnext row hrow row' hrow' hindex hindex'
    obtain ⟨index, hlt, rfl⟩ := TruthTable.mem_rows.mp hrow
    obtain ⟨index', hlt', rfl⟩ := TruthTable.mem_rows.mp hrow'
    have hapart := oneApart_index hg hij hij' hne hnext
    rw [← hindex, ← hindex'] at hapart
    exact hapart.differInOne hlt hlt'

end

end Grid

namespace KarnaughMap

variable {t : TruthTable} {place : Nat} {target : Target}

theorem isDrawable_iff {vars : Nat} : isDrawable vars = true ↔ vars ≠ 0 ∧ vars ≤ maxMapVars := by
  simp [isDrawable]

/-- **One variable to four make a map, and it shows the table.** -/
theorem exists_ofTable? (htarget : t.targets[place]? = some target) (hpos : t.vars.size ≠ 0)
    (hfew : t.vars.size ≤ maxMapVars) : ∃ g, ofTable? t place = some (.grid g) ∧
      g.name = target.definition.name ∧ g.Shows t place := by
  have hcolumn := TruthTable.column?_of_target htarget
  refine ⟨ofValues target.definition.name t.vars.letters _, ?_, rfl,
    Grid.shows (List.take_append_drop ..) hcolumn ?_⟩
  · rw [ofTable?, if_pos (isDrawable_iff.mpr ⟨hpos, hfew⟩), htarget, hcolumn]
  · have hlength : (t.vars.letters.take (t.vars.letters.length / 2)).length +
        (t.vars.letters.drop (t.vars.letters.length / 2)).length = t.vars.size := by
      rw [← List.length_append, List.take_append_drop, LetterSet.size]
    unfold Grid.Small
    exact hlength.trans_le (Nat.le_trans hfew (by decide))

end KarnaughMap

/-! ### Two ways to the values -/

theorem Expr.leaves_ne_nil (e : Expr) : e.leaves ≠ [] := by
  induction e with
  | var v => simp [leaves]
  | not e ih => exact ih
  | binary op l r ihl _ => exact List.append_ne_nil_of_left_ne_nil ihl _

namespace TruthTable

variable {d : Definition}

/-- What can be read has a variable. -/
theorem size_vars_ne_zero {r : Resolver} {c : Char} {e : Expr} (hr : r.registry.Compiled)
    (hc : r.alone c = .ok d) (hparse : Expr.parse d.statement = .ok e) : d.vars.size ≠ 0 := by
  intro hzero
  obtain ⟨v, hv⟩ := List.exists_mem_of_ne_nil _ e.leaves_ne_nil
  have hmem := LetterSet.mem_def.mp (mem_vars_of_mem_leaves hr hc hparse v hv)
  rw [List.eq_nil_of_length_eq_zero hzero] at hmem
  cases hmem

end TruthTable

namespace Session

variable {s : Session} {c : Char} {d : Definition} {t : TruthTable}

theorem resolved_outcome (s : Session) (c : Char) :
    (s.resolved c).outcome = s.resolver.alone c := by
  rw [resolved, Journaled.outcome_bind, Journaled.outcome_ofExcept]
  cases hd : s.registry.lookup c with
  | error e => exact (Resolver.alone_of_lookup_error hd).symm
  | ok stored => exact (Resolver.alone_of_lookup hd).symm

theorem truthTable_outcome (s : Session) (c : Char) : (s.truthTable [c]).outcome =
    (s.resolver.alone c).bind fun d =>
      (TruthTable.ofDefinitions (some s.config.maxTableVars) [d]).outcome :=
  TruthTable.ofNames_singleton ..

/-- A table within the limit depends on the reading of the statement alone. -/
theorem truthTable_of_fits (hd : s.resolver.alone c = .ok d)
    (hfits : d.vars.size ≤ s.config.maxTableVars) : (s.truthTable [c]).outcome =
      (TruthTable.readTarget d).outcome.map fun target => ⟨d.vars, [target]⟩ := by
  rw [truthTable_outcome, hd, Except.bind, TruthTable.ofDefinitions_of_fits]
  intro max hmax
  rwa [← Option.some.inj hmax]

theorem karnaughMap_outcome (s : Session) (c : Char) : (s.karnaughMap c).outcome =
    (s.resolver.alone c).bind fun d =>
      if d.vars.size > maxMapVars then .ok (.undrawable d.vars.size)
      else (TruthTable.ofDefinitions none [d]).outcome.map fun t =>
        (KarnaughMap.ofTable? t 0).getD (.undrawable t.vars.size) := by
  rw [karnaughMap, Journaled.outcome_bind, resolved_outcome]
  congr 1
  funext d
  split
  · rfl
  · rw [Journaled.outcome_bind]
    cases (TruthTable.ofDefinitions none [d]).outcome <;> rfl

/-- So does a map of few variables. -/
theorem karnaughMap_of_few (hd : s.resolver.alone c = .ok d) (hfew : d.vars.size ≤ maxMapVars) :
    (s.karnaughMap c).outcome = (TruthTable.readTarget d).outcome.map fun target =>
      (KarnaughMap.ofTable? ⟨d.vars, [target]⟩ 0).getD (.undrawable d.vars.size) := by
  have hfits : TruthTable.Fits none d.vars.size := by
    intro max hmax
    cases hmax
  rw [karnaughMap_outcome, hd, Except.bind, if_neg (Nat.not_lt.mpr hfew),
    TruthTable.ofDefinitions_of_fits hfits]
  cases (TruthTable.readTarget d).outcome <;> rfl

/-- **A Karnaugh map agrees with the truth table of its function.**  Both are refused if the
function cannot be resolved, and for the same reason.  A function of too many variables has
no map.  Any other, if its table is not too large, has a map that shows the table, or neither
the one nor the other, for the same reason. -/
theorem karnaughMap_agrees (hs : s.Reachable) (c : Char) :
    (∀ e, s.resolver.alone c = .error e →
      (s.karnaughMap c).outcome = .error e ∧ (s.truthTable [c]).outcome = .error e) ∧
    ∀ d, s.resolver.alone c = .ok d →
      (maxMapVars < d.vars.size →
        (s.karnaughMap c).outcome = .ok (.undrawable d.vars.size)) ∧
      (d.vars.size ≤ maxMapVars → d.vars.size ≤ s.config.maxTableVars →
        (∀ e, (s.karnaughMap c).outcome = .error e ↔ (s.truthTable [c]).outcome = .error e) ∧
        ∀ t, (s.truthTable [c]).outcome = .ok t →
          ∃ g, (s.karnaughMap c).outcome = .ok (.grid g) ∧ g.name.char = c ∧ g.Shows t 0) := by
  constructor
  · intro e he
    rw [karnaughMap_outcome, truthTable_outcome, he]
    exact ⟨rfl, rfl⟩
  · intro d hd
    constructor
    · intro hmany
      rw [karnaughMap_outcome, hd]
      exact if_pos hmany
    · intro hfew hfits
      rw [karnaughMap_of_few hd hfew, truthTable_of_fits hd hfits]
      cases hread : (TruthTable.readTarget d).outcome with
      | error e => exact ⟨fun e' => by simp [Except.map], fun t ht => nomatch ht⟩
      | ok target =>
          obtain ⟨rfl, hparse⟩ := TruthTable.readTarget_eq_ok.mp hread
          have hpos := TruthTable.size_vars_ne_zero hs.compiled hd hparse
          have htarget : [target][0]? = some target := rfl
          obtain ⟨g, hg, hname, hshows⟩ := KarnaughMap.exists_ofTable?
            (t := ⟨target.definition.vars, [target]⟩) htarget hpos hfew
          refine ⟨fun e' => by simp [Except.map], ?_⟩
          intro t ht
          cases ht
          refine ⟨g, ?_, ?_, hshows⟩
          · rw [Except.map, hg, Option.getD_some]
          · rw [hname, (Resolver.of_alone hs.compiled hd).1]

/-- A function with a map and one with too many variables for it. -/
def drawn : Session :=
  (new {}).run [.define 'f' "a+b", .define 'g' "abcde"]

/-- What the maps of the two functions and of one that is not stored come to. -/
theorem karnaughMap_agrees_drawn : drawn.Reachable ∧
    (∃ t g, (drawn.truthTable ['f']).outcome = .ok t ∧
      (drawn.karnaughMap 'f').outcome = .ok (.grid g) ∧ g.Shows t 0) ∧
    (drawn.karnaughMap 'g').outcome = .ok (.undrawable 5) ∧
    (drawn.karnaughMap 'h').outcome = .error (.notFound 'h') ∧
    (drawn.truthTable ['h']).outcome = .error (.notFound 'h') := by
  have hdrawn : drawn.Reachable := ⟨_, _, rfl⟩
  have hf : drawn.resolver.alone 'f' = .ok Resolver.inner := Resolver.alone_of_isResolved rfl rfl
  have hg : ∃ d, drawn.resolver.alone 'g' = .ok d ∧ d.vars.size = 5 :=
    ⟨_, Resolver.alone_of_isResolved rfl rfl, rfl⟩
  have hh : drawn.resolver.alone 'h' = .error (.notFound 'h') :=
    Resolver.alone_of_lookup_error rfl
  have htable : ∃ t, (drawn.truthTable ['f']).outcome = .ok t := by
    rw [truthTable_outcome, hf]
    exact ⟨_, TruthTable.ofDefinitions_singleton_eq_ok.mpr ⟨_, rfl, Resolver.parse_inner, rfl⟩⟩
  refine ⟨hdrawn, ?map, ?undrawable, (karnaughMap_agrees hdrawn 'h').1 _ hh⟩
  case map =>
    obtain ⟨t, ht⟩ := htable
    have hfew := ((karnaughMap_agrees hdrawn 'f').2 _ hf).2 (by decide) (by decide)
    obtain ⟨g, hg, -, hshows⟩ := hfew.2 t ht
    exact ⟨t, g, ht, hg, hshows⟩
  case undrawable =>
    obtain ⟨d, hd, hsize⟩ := hg
    have hmany := ((karnaughMap_agrees hdrawn 'g').2 d hd).1 (by rw [hsize]; decide)
    rwa [hsize] at hmany

end Session

end Switching
