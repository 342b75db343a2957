/-
Every assignment has its row.

The rows of a table are numbers written out.  There is one for each number below a power of
two, and its inputs are the digits of the number, so what is known of words says what the
rows are: no two have the same inputs, no inputs are left out, and the order of the rows is
that of their inputs read as words.  The power of two stays small, since there are only so
many letters.

The outputs are looked up by letter.  A tree asks for no letter that the table does not
have, so what it is given is its value under any assignment that has the inputs of the row
for the variables of the table, whatever the assignment does elsewhere.
-/
import Mathlib.Data.List.Nodup
import Switching.Proofs.Canonical

namespace Switching.TruthTable

variable {t : TruthTable} {limit : Option Nat} {ds : List Definition}

/-! ### The rows as numbers -/

theorem length_rows (t : TruthTable) : t.rows.length = 2 ^ t.vars.size := by
  rw [rows, List.length_map, List.length_range]
  rfl

/-- A row stands at the place of its index. -/
theorem rows_getElem? {index : Nat} (h : index < 2 ^ t.vars.size) :
    t.rows[index]? = some (t.row index) := by
  have hrange : index < t.size := h
  rw [rows, List.getElem?_map, List.getElem?_range hrange, Option.map_some]

/-- The first variable takes the most significant digit of the index. -/
theorem inputs_getElem? (t : TruthTable) (index : Nat) {place shift : Nat}
    (h : place + 1 + shift = t.vars.size) :
    (t.inputs index)[place]? = some (index.testBit shift) := by
  have hplace : place < (bits t.vars.size index).length := by
    rw [length_bits]
    omega
  have hshift : t.vars.size - 1 - place = shift := by omega
  rw [inputs, List.getElem?_eq_getElem hplace, getElem_bits, hshift]

/-- **Every assignment of the variables is that of exactly one row.** -/
theorem count_inputs (t : TruthTable) (assign : Letter → Bool) :
    (t.rows.map Row.inputs).count (t.vars.letters.map assign) = 1 := by
  have hinputs : t.rows.map Row.inputs = (List.range t.size).map (bits t.vars.size) := by
    rw [rows, List.map_map]
    rfl
  rw [hinputs]
  refine List.count_eq_one_of_mem ?_ ?_
  · refine List.nodup_range.map_on ?_
    intro n hn m hm hsame
    exact bits_inj (List.mem_range.mp hn) (List.mem_range.mp hm) hsame
  · obtain ⟨index, hindex, hword⟩ := exists_bits (t.vars.letters.map assign)
    rw [List.length_map] at hindex hword
    exact List.mem_map.mpr ⟨index, List.mem_range.mpr hindex, hword⟩

/-- **The rows are in the order of their inputs.** -/
theorem rows_ascending (t : TruthTable) :
    t.rows.Pairwise fun row next => Precedes row.inputs next.inputs := by
  rw [rows, List.pairwise_map]
  refine List.pairwise_lt_range.imp_of_mem ?_
  intro index next _ hnext hlt
  exact bits_precedes hlt (List.mem_range.mp hnext)

/-- There are few enough letters for the rows to be counted. -/
theorem size_le_maxCount (t : TruthTable) : t.size ≤ maxCount := by
  have hpow : 2 ^ t.vars.size ≤ 2 ^ 52 := Nat.pow_le_pow_right (by decide) t.vars.size_le
  have hsize : t.size = 2 ^ t.vars.size := rfl
  rw [hsize]
  exact Nat.le_trans hpow (by decide)

/-! ### What a table lists -/

/-- The table has a row for every assignment of the variables of the definitions, and on it
the values of these. -/
structure Enumerates (t : TruthTable) (ds : List Definition) : Prop where
  /-- The variables are those of all definitions together. -/
  union : IsUnion t.vars ds
  /-- They are letters of the alphabet, and the rows can be counted. -/
  counted : t.vars.size ≤ 52 ∧ t.size ≤ maxCount
  /-- There are as many rows as assignments. -/
  length_eq : t.rows.length = 2 ^ t.vars.size
  /-- The row at a place has the place for its index and the digits of it for its inputs, the
  most significant one first. -/
  row_at : ∀ index < 2 ^ t.vars.size, ∃ row, t.rows[index]? = some row ∧ row.index = index ∧
    row.inputs.length = t.vars.size ∧
    ∀ place shift, place + 1 + shift = t.vars.size →
      row.inputs[place]? = some (index.testBit shift)
  /-- Each assignment has one row. -/
  once : ∀ assign : Letter → Bool,
    (t.rows.map Row.inputs).count (t.vars.letters.map assign) = 1
  /-- The rows are in order, `false` before `true`. -/
  ascending : t.rows.Pairwise fun row next => Precedes row.inputs next.inputs
  /-- The outputs of a row are the values of the definitions, in their order, under an
  assignment that has its inputs, and there is such an assignment. -/
  values : ∀ row ∈ t.rows, (∃ assign : Letter → Bool, t.vars.letters.map assign = row.inputs) ∧
    ∀ assign : Letter → Bool, t.vars.letters.map assign = row.inputs →
      List.Forall₂ (fun d b => ∃ e, Expr.parse d.statement = .ok e ∧ e.eval assign = b)
        ds row.outputs

/-- The outputs of a row are the values of the trees under an assignment that has its
inputs. -/
theorem Closed.output_eq (h : t.Closed) {target : Target} (htarget : target ∈ t.targets)
    {index : Nat} {assign : Letter → Bool} (hassign : t.vars.letters.map assign = t.inputs index) :
    target.tree.eval assign = t.output index target.tree := by
  refine Expr.eval_congr fun v hv => ?_
  have hin : v ∈ t.vars.letters :=
    h.placed target htarget v (LetterSet.mem_ofList.mpr hv)
  rw [← hassign, valueOf_map hin]

/-- **A table of definitions lists every assignment once, in ascending order, with the values
of the definitions.** -/
theorem ofDefinitions_enumerates (hmade : ∀ d ∈ ds, d.Made)
    (h : (ofDefinitions limit ds).outcome = .ok t) : t.Enumerates ds := by
  obtain ⟨hvars, hread⟩ := stages_of_ofDefinitions h
  obtain ⟨rfl, htrees⟩ := readTargets_eq_ok_iff.mp hread
  obtain ⟨-, hclosed⟩ := closed_of_ofDefinitions (fun d hd => (hmade d hd).canonical) h
  refine ⟨(commonVars_eq_ok_iff.mp hvars).2, ⟨t.vars.size_le, t.size_le_maxCount⟩,
    t.length_rows, ?_, t.count_inputs, t.rows_ascending, ?_⟩
  · intro index hindex
    exact ⟨_, rows_getElem? hindex, rfl, t.length_inputs index, fun _ _ => t.inputs_getElem? index⟩
  · intro row hrow
    obtain ⟨index, -, rfl⟩ := mem_rows.mp hrow
    refine ⟨⟨_, map_valueOf t.vars.nodup (t.length_inputs index)⟩, ?_⟩
    intro assign hassign
    rw [row, List.forall₂_map_left_iff, List.forall₂_map_right_iff]
    refine List.forall₂_same.mpr fun target htarget => ?_
    exact ⟨_, htrees target htarget, hclosed.output_eq htarget hassign⟩

/-- The function `g = a*!$f+b*$f` as it is resolved. -/
def written : Definition :=
  Resolver.outer.writtenOut (Resolver.outer.statement.fill fun _ => some Resolver.inner.statement)

/-- The function `b` as it was compiled and another as it is resolved, in one table: in the
second row, where `b` alone is true, both are. -/
theorem ofDefinitions_enumerates_mixed : narrow.Made ∧ written.Made ∧
    ∃ t, (ofDefinitions (some 2) [narrow, written]).outcome = .ok t ∧
      t.Enumerates [narrow, written] ∧ t.rows[1]? = some ⟨1, [false, true], [true, true]⟩ := by
  have hnarrow : narrow.Made := .compiled ⟨'g', "b", rfl⟩
  have hwritten : written.Made := .resolved Resolver.compiled_twice
    ⟨'g', "a*!$f+b*$f", rfl⟩ .nothing Resolver.resolve_outer
  have hmade : ∀ d ∈ [narrow, written], d.Made := by
    simp [hnarrow, hwritten]
  have hread : (readTargets [narrow, written]).outcome = .ok [⟨narrow, _⟩, ⟨written, _⟩] :=
    readTargets_eq_ok_iff.mpr
      ⟨rfl, List.forall_mem_cons.mpr ⟨parse_narrow, List.forall_mem_singleton.mpr
        Resolver.parse_outer⟩⟩
  have hvars : commonVars [narrow, written] = .ok (.ofList [.a, .b]) := rfl
  have ht := ofDefinitions_outcome (some 2) [narrow, written]
  rw [hread, hvars] at ht
  exact ⟨hnarrow, hwritten, _, ht, ofDefinitions_enumerates hmade ht,
    rows_getElem? (show 1 < 2 ^ 2 by decide)⟩

end Switching.TruthTable
