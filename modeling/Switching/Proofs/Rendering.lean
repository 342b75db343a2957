/-
Reading a table back.

The lines of a table are written by three rules, one for the names of the columns, one for the
line under them and one for the rows.  What they have in common is that every column is two
characters wide, the bar is one, and so all lines are of one length and have the bar at the
same place.  In the columns to its left the character comes first and its space follows, in
those to its right the space comes first.  The spaces on both sides of the bar are thus those
of the columns, which is why there has to be a column on either side.

A bar is neither a letter nor a digit, so it can be seen where it stands.  Its place tells the
number of variables, the length of a line tells that of the targets, and then every other
character is one that was written there.  Nothing else was stored in the table.
-/
import Switching.Proofs.Assignments
import Switching.Proofs.Replies

namespace Switching

/-! ### Columns -/

namespace Text

section

variable {bar c : Char} {left right start : Nat} {chars cs ds : List Char}

/-- The line has one bar, and room for so many columns on either side of it. -/
structure Ruled (bar : Char) (left right : Nat) (chars : List Char) : Prop where
  /-- A column is two characters wide, and the bar is one. -/
  length_eq : chars.length = 2 * (left + right) + 1
  /-- The bar stands behind the columns to the left. -/
  bar_at : chars[2 * left]? = some bar
  /-- There is no bar of any kind elsewhere. -/
  bar_only : ∀ place, place ≠ 2 * left → chars[place]? ≠ some '│' ∧ chars[place]? ≠ some '┼'

/-- Every other character from a place on is one of these, in their order. -/
def Spells (start : Nat) (cs chars : List Char) : Prop :=
  ∀ k c, cs[k]? = some c → chars[start + 2 * k]? = some c

/-- A bar tells its place, and the line its length. -/
theorem Ruled.unique {left' right' : Nat} (h : Ruled '│' left right chars)
    (h' : Ruled '│' left' right' chars) : left = left' ∧ right = right' := by
  have hleft : left = left' := by
    by_contra hne
    exact (h'.bar_only (2 * left) (by omega)).1 h.bar_at
  have hlength := h.length_eq.symm.trans h'.length_eq
  exact ⟨hleft, by omega⟩

/-- What is spelled can be read, if different things are spelled differently. -/
theorem Spells.map_unique {α : Type} {key : α → Char} {xs ys : List α}
    (h : Spells start (xs.map key) chars) (h' : Spells start (ys.map key) chars)
    (hkey : Function.Injective key) (hlength : xs.length = ys.length) : xs = ys := by
  refine List.ext_getElem hlength fun k hk hk' => hkey ?_
  have hread := h k (key xs[k]) (by rw [List.getElem?_map, List.getElem?_eq_getElem hk]; rfl)
  have hread' := h' k (key ys[k]) (by rw [List.getElem?_map, List.getElem?_eq_getElem hk']; rfl)
  exact Option.some.inj (hread.symm.trans hread')

/-- No bar is among the characters. -/
def Plain (cs : List Char) : Prop :=
  ∀ c ∈ cs, c ≠ '│' ∧ c ≠ '┼'

/-- A line has one bar if there is none in the two parts that it divides. -/
theorem ruled_of_plain (hcs : cs.length = 2 * left) (hds : ds.length = 2 * right)
    (hplain : Plain (cs ++ ds)) : Ruled bar left right (cs ++ bar :: ds) where
  length_eq := by
    rw [List.length_append, List.length_cons]
    omega
  bar_at := by rw [← hcs, List.getElem?_append_right (Nat.le_refl _), Nat.sub_self]; rfl
  bar_only place hplace := by
    have hin : ∀ c, (cs ++ bar :: ds)[place]? = some c → c ∈ cs ++ ds := by
      intro c hc
      rcases Nat.lt_or_ge place cs.length with hlt | hge
      · rw [List.getElem?_append_left hlt] at hc
        exact List.mem_append_left _ (List.mem_of_getElem? hc)
      · obtain ⟨k, hk⟩ : ∃ k, place - cs.length = k + 1 := ⟨place - cs.length - 1, by omega⟩
        rw [List.getElem?_append_right hge, hk, List.getElem?_cons_succ] at hc
        exact List.mem_append_right _ (List.mem_of_getElem? hc)
    exact ⟨fun h => (hplain _ (hin _ h)).1 rfl, fun h => (hplain _ (hin _ h)).2 rfl⟩

/-! ### Characters with spaces between them -/

/-- Columns with the space behind the character. -/
def trailed (cs : List Char) : List Char :=
  cs.flatMap fun c => [c, ' ']

/-- Columns with the space before the character. -/
def led (cs : List Char) : List Char :=
  cs.flatMap fun c => [' ', c]

theorem length_trailed (cs : List Char) : (trailed cs).length = 2 * cs.length := by
  simp [trailed, Nat.mul_comm]

theorem length_led (cs : List Char) : (led cs).length = 2 * cs.length := by
  simp [led, Nat.mul_comm]

theorem trailed_getElem? (cs : List Char) (k : Nat) : (trailed cs)[2 * k]? = cs[k]? := by
  induction cs generalizing k with
  | nil => rfl
  | cons c cs ih =>
      cases k with
      | zero => rfl
      | succ k => exact ih k

theorem led_getElem? (cs : List Char) (k : Nat) : (led cs)[2 * k + 1]? = cs[k]? := by
  induction cs generalizing k with
  | nil => rfl
  | cons c cs ih =>
      cases k with
      | zero => rfl
      | succ k => exact ih k

theorem plain_columns (hcs : Plain cs) (hds : Plain ds) : Plain (trailed cs ++ led ds) := by
  intro c hc
  have hspace : ' ' ≠ '│' ∧ ' ' ≠ '┼' := by decide
  rcases List.mem_append.mp hc with hc | hc
  · obtain ⟨d, hd, hc⟩ := List.mem_flatMap.mp hc
    rcases List.mem_pair.mp hc with rfl | rfl
    · exact hcs c hd
    · exact hspace
  · obtain ⟨d, hd, hc⟩ := List.mem_flatMap.mp hc
    rcases List.mem_pair.mp hc with rfl | rfl
    · exact hspace
    · exact hds c hd

end

end Text

namespace TruthTable

section

variable {cs ds : List Char} {c : Char}

theorem toList_spaced_cons_cons (c d : Char) (cs : List Char) :
    (spaced (c :: d :: cs)).toList = c :: ' ' :: (spaced (d :: cs)).toList := by
  have hspace : " ".toList = [' '] := rfl
  simp only [spaced, List.map_cons, String.intercalate_cons_cons, String.toList_append, hspace]
  simp

theorem toList_spaced_singleton (c : Char) : (spaced [c]).toList = [c] := by
  simp [spaced]

theorem trailed_eq (h : cs ≠ []) : Text.trailed cs = (spaced cs).toList ++ [' '] := by
  induction cs with
  | nil => exact absurd rfl h
  | cons c cs ih =>
      cases cs with
      | nil =>
          rw [toList_spaced_singleton]
          rfl
      | cons d cs =>
          rw [toList_spaced_cons_cons, List.cons_append, List.cons_append,
            ← ih (List.cons_ne_nil _ _)]
          rfl

theorem led_eq (h : cs ≠ []) : Text.led cs = ' ' :: (spaced cs).toList := by
  induction cs with
  | nil => exact absurd rfl h
  | cons c cs ih =>
      cases cs with
      | nil =>
          rw [toList_spaced_singleton]
          rfl
      | cons d cs =>
          rw [toList_spaced_cons_cons, ← ih (List.cons_ne_nil _ _)]
          rfl

/-- The spaces about the bar are those of the columns next to it. -/
theorem toList_columns (hcs : cs ≠ []) (hds : ds ≠ []) :
    (Text.columns (spaced cs) (spaced ds)).toList = Text.trailed cs ++ '│' :: Text.led ds := by
  have hbar : " │ ".toList = [' ', '│', ' '] := rfl
  rw [trailed_eq hcs, led_eq hds, Text.columns, String.toList_append, String.toList_append, hbar]
  simp

/-- **Two columns of characters are a ruled line that spells the characters.** -/
theorem columns_ruled (hcs : cs ≠ []) (hds : ds ≠ []) (hplain : Text.Plain cs)
    (hplain' : Text.Plain ds) :
    Text.Ruled '│' cs.length ds.length (Text.columns (spaced cs) (spaced ds)).toList ∧
      Text.Spells 0 cs (Text.columns (spaced cs) (spaced ds)).toList ∧
      Text.Spells (2 * cs.length + 2) ds (Text.columns (spaced cs) (spaced ds)).toList := by
  rw [toList_columns hcs hds]
  refine ⟨?_, ?_, ?_⟩
  · exact Text.ruled_of_plain (Text.length_trailed cs) (Text.length_led ds)
      (Text.plain_columns hplain hplain')
  · intro k c hc
    rw [← Text.trailed_getElem?] at hc
    obtain ⟨hlt, -⟩ := List.getElem?_eq_some_iff.mp hc
    rw [Nat.zero_add, List.getElem?_append_left hlt, hc]
  · intro k c hc
    rw [← Text.led_getElem?] at hc
    have hplace : 2 * cs.length + 2 + 2 * k - (Text.trailed cs).length = 2 * k + 1 + 1 := by
      rw [Text.length_trailed]
      omega
    rw [List.getElem?_append_right (by rw [Text.length_trailed]; omega), hplace,
      List.getElem?_cons_succ, hc]

theorem underline_ruled (left right : Nat) :
    Text.Ruled '┼' left right (Text.underline (2 * left) (2 * right)).toList := by
  have hcross : "┼".toList = ['┼'] := rfl
  have hline : (Text.underline (2 * left) (2 * right)).toList =
      List.replicate (2 * left) '─' ++ '┼' :: List.replicate (2 * right) '─' := by
    simp only [Text.underline, Text.rule, String.toList_append, String.toList_ofList, hcross,
      List.append_assoc, List.singleton_append]
  rw [hline]
  refine Text.ruled_of_plain List.length_replicate List.length_replicate fun c hc => ?_
  have hdash : c = '─' := by
    rcases List.mem_append.mp hc with hc | hc <;> exact List.eq_of_mem_replicate hc
  rw [hdash]
  decide

theorem plain_letters (letters : List Letter) : Text.Plain (letters.map Letter.char) := by
  intro c hc
  obtain ⟨l, -, rfl⟩ := List.mem_map.mp hc
  exact ⟨l.char_ne (by decide), l.char_ne (by decide)⟩

theorem plain_bits (bs : List Bool) : Text.Plain (bs.map bitChar) := by
  intro c hc
  obtain ⟨b, -, rfl⟩ := List.mem_map.mp hc
  cases b <;> decide

end

/-! ### Tables -/

section

variable {t other : TruthTable} {lines : List (List Char)}

/-- The lines show the table: its variables and targets in the first line, a rule in the second
and its rows in the others. -/
structure Legible (t : TruthTable) (lines : List (List Char)) : Prop where
  /-- There is a line for each row and two above them. -/
  length_eq : lines.length = 2 ^ t.vars.size + 2
  /-- All lines are divided at the same place, the second one by a cross. -/
  ruled : ∀ place chars, lines[place]? = some chars →
    Text.Ruled (if place = 1 then '┼' else '│') t.vars.size t.targets.length chars
  /-- The first line has the variables to the left and the names of the targets to the right. -/
  header : ∃ chars, lines[0]? = some chars ∧
    Text.Spells 0 (t.vars.letters.map Letter.char) chars ∧
    Text.Spells (2 * t.vars.size + 2) (t.names.map Letter.char) chars
  /-- The line of a row has the binary digits of the index to the left, the most significant one
  first, and the outputs to the right. -/
  row : ∀ index < 2 ^ t.vars.size, ∃ row chars, t.rows[index]? = some row ∧
    row.index = index ∧ lines[index + 2]? = some chars ∧
    (∀ place shift, place + 1 + shift = t.vars.size →
      chars[2 * place]? = some (bitChar (index.testBit shift))) ∧
    Text.Spells (2 * t.vars.size + 2) (row.outputs.map bitChar) chars

theorem length_names (t : TruthTable) : t.names.length = t.targets.length :=
  List.length_map _

theorem length_outputs (t : TruthTable) (index : Nat) :
    (t.row index).outputs.length = t.targets.length :=
  List.length_map _

theorem lines_render (t : TruthTable) : Text.lines t.render.toList =
    (t.header :: Text.underline (2 * t.vars.size) (2 * t.targets.length) ::
      t.rows.map rowText).map String.toList :=
  Text.lines_stacked fun _ => whole_of_mem_render

theorem header_ruled (hvars : 0 < t.vars.size) (htargets : 0 < t.targets.length) :
    Text.Ruled '│' t.vars.size t.targets.length t.header.toList ∧
      Text.Spells 0 (t.vars.letters.map Letter.char) t.header.toList ∧
      Text.Spells (2 * t.vars.size + 2) (t.names.map Letter.char) t.header.toList := by
  have hleft : (t.vars.letters.map Letter.char).length = t.vars.size := List.length_map _
  have hright : (t.names.map Letter.char).length = t.targets.length := by
    rw [List.length_map, length_names]
  have h := columns_ruled (List.ne_nil_of_length_pos (by rwa [hleft]))
    (List.ne_nil_of_length_pos (by rwa [hright])) (plain_letters _) (plain_letters _)
  rwa [hleft, hright] at h

theorem rowText_ruled (hvars : 0 < t.vars.size) (htargets : 0 < t.targets.length) (index : Nat) :
    Text.Ruled '│' t.vars.size t.targets.length (rowText (t.row index)).toList ∧
      Text.Spells 0 ((t.inputs index).map bitChar) (rowText (t.row index)).toList ∧
      Text.Spells (2 * t.vars.size + 2) ((t.row index).outputs.map bitChar)
        (rowText (t.row index)).toList := by
  have hleft : ((t.inputs index).map bitChar).length = t.vars.size :=
    (List.length_map _).trans (t.length_inputs index)
  have hright : ((t.row index).outputs.map bitChar).length = t.targets.length := by
    rw [List.length_map, length_outputs]
  have h := columns_ruled (List.ne_nil_of_length_pos (by rwa [hleft]))
    (List.ne_nil_of_length_pos (by rwa [hright])) (plain_bits _) (plain_bits _)
  rwa [hleft, hright] at h

/-- **The text of a table shows the table.** -/
theorem legible_render (hvars : 0 < t.vars.size) (htargets : 0 < t.targets.length) :
    t.Legible (Text.lines t.render.toList) := by
  rw [lines_render]
  refine ⟨by simp [length_rows], ?_, ⟨_, rfl, (header_ruled hvars htargets).2⟩, ?_⟩
  · intro place chars hline
    match place with
    | 0 =>
        cases hline
        exact (header_ruled hvars htargets).1
    | 1 =>
        cases hline
        exact underline_ruled _ _
    | place + 2 =>
        have hrow : ((t.rows.map rowText).map String.toList)[place]? = some chars := hline
        rw [List.map_map] at hrow
        obtain ⟨row, hin, rfl⟩ := List.mem_map.mp (List.mem_of_getElem? hrow)
        obtain ⟨index, -, rfl⟩ := mem_rows.mp hin
        rw [if_neg (by omega)]
        exact (rowText_ruled hvars htargets index).1
  · intro index hindex
    obtain ⟨-, hinputs, houtputs⟩ := rowText_ruled hvars htargets index
    refine ⟨_, _, rows_getElem? hindex, rfl, ?_, ?_, houtputs⟩
    · rw [List.map_cons, List.map_cons, List.getElem?_cons_succ, List.getElem?_cons_succ,
        List.getElem?_map, List.getElem?_map, rows_getElem? hindex, Option.map_some,
        Option.map_some]
    · intro place shift hplace
      have hdigit := hinputs place (bitChar (index.testBit shift)) (by
        rw [List.getElem?_map, t.inputs_getElem? index hplace, Option.map_some])
      rwa [Nat.zero_add] at hdigit

theorem bitChar_inj {b b' : Bool} (h : bitChar b = bitChar b') : b = b' := by
  revert b b'
  decide

section

variable (h : t.Legible lines) (h' : other.Legible lines)

include h h'

/-- The bar of the first line tells how many columns there are. -/
theorem Legible.size_unique :
    other.vars.size = t.vars.size ∧ other.targets.length = t.targets.length := by
  obtain ⟨chars, hline, -⟩ := h.header
  exact (h'.ruled 0 chars hline).unique (h.ruled 0 chars hline)

theorem Legible.vars_unique : other.vars = t.vars := by
  obtain ⟨chars, hline, hvars, -⟩ := h.header
  obtain ⟨chars', hline', hvars', -⟩ := h'.header
  rw [hline, Option.some.injEq] at hline'
  subst hline'
  have hletters : other.vars.letters = t.vars.letters :=
    hvars'.map_unique hvars (fun _ _ => Letter.char_inj) (h.size_unique h').1
  ext v
  rw [LetterSet.mem_def, LetterSet.mem_def, hletters]

theorem Legible.names_unique : other.names = t.names := by
  obtain ⟨chars, hline, -, hnames⟩ := h.header
  obtain ⟨chars', hline', -, hnames'⟩ := h'.header
  rw [hline, Option.some.injEq] at hline'
  subst hline'
  rw [(h.size_unique h').1] at hnames'
  refine hnames'.map_unique hnames (fun _ _ => Letter.char_inj) ?_
  rw [length_names, length_names, (h.size_unique h').2]

theorem Legible.row_unique {index : Nat} (hindex : index < 2 ^ t.vars.size) :
    other.row index = t.row index := by
  have hvars := h.vars_unique h'
  have hindex' : index < 2 ^ other.vars.size := by rwa [hvars]
  obtain ⟨row, chars, hrow, -, hline, -, hspells⟩ := h.row index hindex
  obtain ⟨row', chars', hrow', -, hline', -, hspells'⟩ := h'.row index hindex'
  rw [rows_getElem? hindex, Option.some.injEq] at hrow
  rw [rows_getElem? hindex', Option.some.injEq] at hrow'
  rw [hline, Option.some.injEq] at hline'
  subst hrow hrow' hline'
  have houtputs : (other.row index).outputs = (t.row index).outputs := by
    rw [hvars] at hspells'
    refine hspells'.map_unique hspells (fun _ _ => bitChar_inj) ?_
    rw [length_outputs, length_outputs, (h.size_unique h').2]
  have hinputs : other.inputs index = t.inputs index := by rw [inputs, inputs, hvars]
  rw [TruthTable.row, TruthTable.row, Row.mk.injEq]
  exact ⟨rfl, hinputs, houtputs⟩

/-- **What the lines show can only be one table**, but for the expressions of its targets. -/
theorem Legible.unique :
    other.vars = t.vars ∧ other.names = t.names ∧ other.rows = t.rows := by
  refine ⟨h.vars_unique h', h.names_unique h', ?_⟩
  have hsize : other.size = t.size := by rw [size, size, h.vars_unique h']
  rw [rows, rows, hsize]
  exact List.map_congr_left fun index hindex => h.row_unique h' (List.mem_range.mp hindex)

end

/-- **A table can be read back from its text.**  If it has a variable and a target, the lines of
the text show it, and another table with the same text has the same variables, names and
rows. -/
theorem render_reads_back (hvars : 0 < t.vars.size) (htargets : 0 < t.targets.length) :
    t.Legible (Text.lines t.render.toList) ∧
    ∀ other : TruthTable, 0 < other.vars.size → 0 < other.targets.length →
      other.render = t.render →
      other.vars = t.vars ∧ other.names = t.names ∧ other.rows = t.rows := by
  have hlegible := legible_render hvars htargets
  refine ⟨hlegible, ?_⟩
  intro other hvars' htargets' hsame
  have hlegible' := legible_render hvars' htargets'
  rw [hsame] at hlegible'
  exact hlegible.unique hlegible'

end

/-- The table of `g = a*!$f+b*$f` has its bar at the fifth place of each of its six lines, and no
other table is written like it. -/
theorem render_reads_back_twice : ∃ t : TruthTable,
    (ofNames ⟨Resolver.twice, 16⟩ none ['g']).outcome = .ok t ∧ t.vars.size = 2 ∧
    t.targets.length = 1 ∧ (Text.lines t.render.toList).length = 6 ∧
    (∀ chars ∈ Text.lines t.render.toList, chars[4]? = some '│' ∨ chars[4]? = some '┼') ∧
    ∀ other : TruthTable, 0 < other.vars.size → 0 < other.targets.length →
      other.render = t.render → other.rows = t.rows := by
  have hd : Resolver.twice.lookup 'g' = .ok Resolver.outer := rfl
  have hsize : ∀ n, checkSize none n = .ok () := fun _ => rfl
  have ht := ofNames_singleton_eq_ok.mpr
    ⟨_, _, _, hd, Resolver.resolve_outer, hsize _, Resolver.parse_outer, rfl⟩
  have hread : ∀ {t : TruthTable}, t.vars.size = 2 → t.targets.length = 1 →
      (Text.lines t.render.toList).length = 6 ∧
      (∀ chars ∈ Text.lines t.render.toList, chars[4]? = some '│' ∨ chars[4]? = some '┼') ∧
      ∀ other : TruthTable, 0 < other.vars.size → 0 < other.targets.length →
        other.render = t.render → other.rows = t.rows := by
    intro t hvars htargets
    obtain ⟨hlegible, hback⟩ := render_reads_back (t := t) (by omega) (by omega)
    refine ⟨by rw [hlegible.length_eq, hvars]; rfl, fun chars hline => ?_,
      fun other hvars htargets hsame => (hback other hvars htargets hsame).2.2⟩
    obtain ⟨place, hplace⟩ := List.mem_iff_getElem?.mp hline
    have hbar := (hlegible.ruled place chars hplace).bar_at
    rw [hvars] at hbar
    split at hbar
    · exact .inr hbar
    · exact .inl hbar
  exact ⟨_, ht, rfl, rfl, hread rfl rfl⟩

end TruthTable

end Switching
