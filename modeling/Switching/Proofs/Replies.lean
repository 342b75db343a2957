/-
What a request is answered with.

A reply is text, in lines, and is sent in pages.  Whatever the limit of a page is, the pages
with a line feed between them are the reply again: a page ends where a line ends, and the
line feed that is dropped there is the one that is put back.

Only a blank line can get lost on the way, and no reply has one.  Every line of a reply holds
characters of its own, be it a heading, a bar or an arrow, and what is put in from outside,
the names and the expressions, ends no line.
-/
import Switching.Proofs.Karnaugh
import Switching.Proofs.Listing
import Switching.Proofs.Pages

namespace Switching

/-- **The pages of whole lines, one under another, are the lines one under another.** -/
theorem stacked_paginate {parts : List String} (h : ∀ line ∈ parts, Text.Whole line)
    (limit : Nat) : Text.stacked (paginate (Text.stacked parts) limit) = Text.stacked parts := by
  have hblank : [] ∉ parts.map String.toList := by
    intro hin
    obtain ⟨line, hline, hempty⟩ := List.mem_map.mp hin
    exact (h line hline).ne_empty (String.toList_eq_nil_iff.mp hempty)
  have hpages : paginate (Text.stacked parts) limit = pagesOf limit (parts.map String.toList) := by
    rw [paginate, Text.lines_stacked h, pagesOf]
  rw [hpages, stacked_pagesOf_of_not_mem hblank]
  simp [Text.ofLines, Function.comp_def]

/-! ### Lines and what stands on them -/

namespace Text

section

variable {text left right line : String} {lines parts : List String} {c : Char} {cs : List Char}

/-- The text is one whole line, or several one under another. -/
def Lined (text : String) : Prop :=
  ∃ lines, lines ≠ [] ∧ (∀ line ∈ lines, Whole line) ∧ stacked lines = text

theorem Whole.lined (h : Whole text) : Lined text :=
  ⟨[text], List.cons_ne_nil _ _, by simpa using h, String.intercalate_singleton⟩

/-- A whole line may be put above. -/
theorem Lined.under (h : Lined text) (hline : Whole line) : Lined (line ++ "\n" ++ text) := by
  obtain ⟨lines, hne, hwhole, rfl⟩ := h
  obtain ⟨first, lines, rfl⟩ := List.exists_cons_of_ne_nil hne
  refine ⟨line :: first :: lines, List.cons_ne_nil _ _, ?_, ?_⟩
  · intro l hl
    rcases List.mem_cons.mp hl with rfl | hl
    · exact hline
    · exact hwhole l hl
  · exact String.intercalate_cons_cons

/-- **The pages of a text in lines make up the text.** -/
theorem Lined.stacked_paginate (h : Lined text) (limit : Nat) :
    stacked (paginate text limit) = text := by
  obtain ⟨lines, -, hwhole, rfl⟩ := h
  exact Switching.stacked_paginate hwhole limit

theorem unbroken_ofList (h : ∀ c ∈ cs, c ≠ '\n' ∧ c ≠ '\r') : Unbroken (String.ofList cs) := by
  intro c hc
  rw [String.toList_ofList] at hc
  exact h c hc

theorem unbroken_rule (n : Nat) (hc : c ≠ '\n' ∧ c ≠ '\r') : Unbroken (rule n c) := by
  refine unbroken_ofList fun c' hc' => ?_
  rwa [List.eq_of_mem_replicate hc']

/-- The bar between two columns is on the line, whatever the columns are. -/
theorem whole_columns (hleft : Unbroken left) (hright : Unbroken right) :
    Whole (columns left right) where
  ne_empty := by simp [columns]
  unbroken := (hleft.append (by decide)).append hright

theorem whole_underline (left right : Nat) : Whole (underline left right) where
  ne_empty := by simp [underline]
  unbroken := ((unbroken_rule left (by decide)).append (by decide)).append
    (unbroken_rule right (by decide))

end

end Text

theorem Letter.not_break_of_mem {letters : List Letter} {c : Char}
    (h : c ∈ letters.map Letter.char) : c ≠ '\n' ∧ c ≠ '\r' := by
  obtain ⟨l, -, rfl⟩ := List.mem_map.mp h
  exact l.not_break

theorem bitChar_not_break_of_mem {bs : List Bool} {c : Char} (h : c ∈ bs.map bitChar) :
    c ≠ '\n' ∧ c ≠ '\r' := by
  obtain ⟨b, -, rfl⟩ := List.mem_map.mp h
  cases b <;> decide

theorem Letter.unbroken_join {separator : String} (h : Text.Unbroken separator)
    (letters : List Letter) : Text.Unbroken (Letter.join separator letters) := by
  refine Text.unbroken_intercalate h fun part hpart => ?_
  obtain ⟨l, -, rfl⟩ := List.mem_map.mp hpart
  exact l.unbroken_toText

/-- A token is shown as one word. -/
theorem Token.isWord_toText (t : Token) : Text.IsWord t.toText := by
  have hletter : ∀ l : Letter, Text.isBlank l.char = false := Letter.isBlank_char
  cases t with
  | var v => exact ⟨by simp [toText, Letter.toText], by simp [toText, Letter.toText, hletter]⟩
  | ref f =>
      have hdollar : Text.isBlank '$' = false := by decide
      exact ⟨by simp [toText], by simp [toText, Letter.toText, hletter, hdollar]⟩
  | op op => cases op <;> decide
  | not | lparen | rparen => decide

theorem Statement.unbroken_toText (s : Statement) : Text.Unbroken s.toText := by
  refine Text.unbroken_intercalate (by decide) fun part hpart => ?_
  obtain ⟨t, -, rfl⟩ := List.mem_map.mp hpart
  exact Text.unbroken_of_not_blank t.isWord_toText.not_blank

/-! ### Tables and maps -/

namespace TruthTable

theorem unbroken_spaced {cs : List Char} (h : ∀ c ∈ cs, c ≠ '\n' ∧ c ≠ '\r') :
    Text.Unbroken (spaced cs) := by
  refine Text.unbroken_intercalate (by decide) fun part hpart => ?_
  obtain ⟨c, hc, rfl⟩ := List.mem_map.mp hpart
  exact Text.unbroken_toString (h c hc)

theorem unbroken_spaced_letters (letters : List Letter) :
    Text.Unbroken (spaced (letters.map Letter.char)) :=
  unbroken_spaced fun _ => Letter.not_break_of_mem

theorem unbroken_spaced_bits (bs : List Bool) : Text.Unbroken (spaced (bs.map bitChar)) :=
  unbroken_spaced fun _ => bitChar_not_break_of_mem

/-- The lines of a table can be told apart, whatever the table is. -/
theorem whole_of_mem_render {t : TruthTable} {line : String}
    (h : line ∈ t.header :: Text.underline (2 * t.vars.size) (2 * t.targets.length) ::
      t.rows.map rowText) : Text.Whole line := by
  rcases List.mem_cons.mp h with rfl | h
  · exact Text.whole_columns (unbroken_spaced_letters _) (unbroken_spaced_letters _)
  rcases List.mem_cons.mp h with rfl | h
  · exact Text.whole_underline _ _
  · obtain ⟨row, -, rfl⟩ := List.mem_map.mp h
    exact Text.whole_columns (unbroken_spaced_bits _) (unbroken_spaced_bits _)

theorem lined_render (t : TruthTable) : Text.Lined t.render :=
  ⟨_, List.cons_ne_nil _ _, fun _ => whole_of_mem_render, rfl⟩

end TruthTable

namespace Grid

theorem unbroken_bitsText (bs : List Bool) : Text.Unbroken (bitsText bs) :=
  Text.unbroken_ofList fun _ => bitChar_not_break_of_mem

theorem unbroken_letters (letters : List Letter) :
    Text.Unbroken (String.ofList (letters.map Letter.char)) :=
  Text.unbroken_ofList fun _ => Letter.not_break_of_mem

theorem unbroken_corner (g : Grid) : Text.Unbroken g.corner :=
  ((unbroken_letters _).append (by decide)).append (unbroken_letters _)

theorem unbroken_spread {entries : List String} (h : ∀ entry ∈ entries, Text.Unbroken entry) :
    Text.Unbroken (spread entries) :=
  Text.unbroken_intercalate (by decide) h

theorem unbroken_cells (g : Grid) (row : Nat) : Text.Unbroken (g.cells row) := by
  refine Text.unbroken_ofList fun c hc => ?_
  refine unbroken_spread (fun entry hentry => ?_) c (Text.mem_of_mem_trimEnd hc)
  obtain ⟨col, -, rfl⟩ := List.mem_map.mp hentry
  exact (unbroken_bitsText _).append (Text.unbroken_rule _ (by decide))

theorem lined_render (g : Grid) : Text.Lined g.render := by
  refine ⟨_, List.cons_ne_nil _ _, fun line hline => ?_, rfl⟩
  rcases List.mem_cons.mp hline with rfl | hline
  · refine Text.whole_columns g.unbroken_corner (unbroken_spread fun entry hentry => ?_)
    obtain ⟨col, -, rfl⟩ := List.mem_map.mp hentry
    exact unbroken_bitsText _
  rcases List.mem_cons.mp hline with rfl | hline
  · exact Text.whole_underline _ _
  · obtain ⟨row, -, rfl⟩ := List.mem_map.mp hline
    exact Text.whole_columns ((Text.unbroken_rule _ (by decide)).append (unbroken_bitsText _))
      (g.unbroken_cells row)

end Grid

/-! ### Requests -/

namespace Registry.Compiled

variable {r : Registry} {c : Char} {d : Definition}

/-- No expression that is kept ends a line, since none has a blank. -/
theorem unbroken_expression (hr : r.Compiled) (h : r.lookup c = .ok d) :
    Text.Unbroken d.expression := by
  obtain ⟨text, htext⟩ := hr _ _ (hr.find?_of_lookup h)
  exact Text.unbroken_of_not_blank (Definition.not_blank_of_compile htext)

/-- What is resolved shows the expression of what was stored. -/
theorem unbroken_expression_of_alone {limit : Nat} (hr : r.Compiled)
    (h : Resolver.alone ⟨r, limit⟩ c = .ok d) : Text.Unbroken d.expression := by
  obtain ⟨stored, hd, hres⟩ := Resolver.alone_eq_ok_iff.mp h
  obtain ⟨s, -, -, rfl⟩ :=
    (Resolver.resolve_eq_ok_iff hr (hr.find?_of_lookup hd) Resolver.recalls_empty).mp hres
  have hstored : Text.Unbroken stored.expression := hr.unbroken_expression hd
  exact hstored

end Registry.Compiled

namespace Session

variable {s : Session} {command : Command} {text : String} {out : Except Error String}

theorem view_function_outcome (s : Session) (c : Char) (expand : Bool) :
    (s.view (.function c) expand).outcome =
      (if expand then s.resolver.alone c else s.registry.lookup c).map details := by
  have hview : (s.view (.function c) expand).outcome =
      (s.viewText (.function c) expand).outcome := rfl
  rw [hview, viewText]
  cases expand with
  | true =>
      rw [if_pos rfl, if_pos rfl, Journaled.outcome_bind, resolved_outcome]
      cases s.resolver.alone c <;> rfl
  | false =>
      rw [if_neg Bool.false_ne_true, if_neg Bool.false_ne_true, Journaled.outcome_bind,
        Journaled.outcome_ofExcept]
      cases s.registry.lookup c <;> rfl

theorem table_outcome (s : Session) (targets : List Char) :
    (s.table targets).outcome = (s.truthTable targets).outcome.map fun t =>
      "Displaying truth table at " ++ Event.namesText targets ++ "\n" ++ t.render := by
  simp only [table, Journaled.outcome_bind, Journaled.outcome_record, Journaled.outcome_reported,
    Journaled.outcome_pure]
  cases (s.truthTable targets).outcome <;> rfl

theorem kmap_outcome (s : Session) (c : Char) :
    (s.kmap c).outcome = (s.karnaughMap c).outcome.map fun map =>
      match map with
      | .grid g => "Displaying k-map at " ++ c.toString ++ "\n" ++ g.render
      | .undrawable vars => undrawableText vars := by
  simp only [kmap, Journaled.outcome_bind, Journaled.outcome_record, Journaled.outcome_reported]
  cases (s.karnaughMap c).outcome with
  | error e => rfl
  | ok map => cases map <;> rfl

theorem lined_listing (hr : s.registry.Compiled) : Text.Lined s.listing := by
  refine ⟨_, List.cons_ne_nil _ _, fun line hline => ?_, s.listing_eq.symm⟩
  exact whole_of_mem_listing hr hline

theorem lined_details {d : Definition} (h : Text.Unbroken d.expression) :
    Text.Lined (details d) := by
  have hcomma : Text.Unbroken ", " := by decide
  have hname := d.name.unbroken_toText
  refine ⟨_, List.cons_ne_nil _ _, fun line hline => ?_, rfl⟩
  simp only [List.mem_cons, List.not_mem_nil, or_false] at hline
  rcases hline with rfl | rfl | rfl | rfl | rfl
  · exact ⟨by simp, Text.Unbroken.append (by decide) hname⟩
  · exact ⟨by simp, Text.Unbroken.append (by decide) h⟩
  · exact ⟨by simp, Text.Unbroken.append (by decide) d.statement.unbroken_toText⟩
  · exact ⟨by simp, Text.Unbroken.append (by decide) (Letter.unbroken_join hcomma _)⟩
  · exact ⟨by simp, Text.Unbroken.append (by decide) (Letter.unbroken_join hcomma _)⟩

/-- The text that a command shows; one that is to change something shows none. -/
def shown? (s : Session) : Command → Option (Except Error String)
  | .view target expand => some (s.view target (expand || s.config.expandByDefault)).outcome
  | .table targets => some (s.table targets).outcome
  | .kmap c => some (s.kmap c).outcome
  | .set .. | .clear => none

/-- A command that shows a text sends its pages. -/
theorem execute_of_shown? (h : s.shown? command = some out) :
    (s.execute command).outcome = out.map fun text => (s, s.pages text) := by
  cases command with
  | set | clear => cases h
  | view | table | kmap =>
      cases h
      rw [execute, Journaled.outcome_bind]
      simp only [Journaled.outcome_pure]
      rfl

/-- A command that is not to change anything is to show a text. -/
theorem exists_shown? (s : Session) (h : command.change? = none) :
    ∃ out, s.shown? command = some out := by
  cases command with
  | set | clear => cases h
  | view | table | kmap => exact ⟨_, rfl⟩

/-- Only letters name a function. -/
theorem not_break_of_alone (hr : s.registry.Compiled) {c : Char} {d : Definition}
    (h : s.resolver.alone c = .ok d) : c ≠ '\n' ∧ c ≠ '\r' := by
  rw [← (Resolver.of_alone hr h).1]
  exact d.name.not_break

theorem not_break_of_truthTable (hr : s.registry.Compiled) {targets : List Char} {t : TruthTable}
    (h : (s.truthTable targets).outcome = .ok t) : ∀ c ∈ targets, c ≠ '\n' ∧ c ≠ '\r' := by
  intro c hc
  obtain ⟨place, hplace⟩ := List.mem_iff_getElem?.mp hc
  obtain ⟨target, -, hd, -⟩ := TruthTable.exists_target hr h hplace
  exact not_break_of_alone hr hd

theorem not_break_of_karnaughMap (hr : s.registry.Compiled) {c : Char} {map : KarnaughMap}
    (h : (s.karnaughMap c).outcome = .ok map) : c ≠ '\n' ∧ c ≠ '\r' := by
  rw [karnaughMap_outcome] at h
  cases hd : s.resolver.alone c with
  | error e =>
      rw [hd] at h
      cases h
  | ok d => exact not_break_of_alone hr hd

theorem whole_undrawableText (vars : Nat) : Text.Whole (undrawableText vars) := by
  unfold undrawableText
  split
  · exact ⟨by simp, by decide +kernel⟩
  · exact ⟨by simp, by decide +kernel⟩

/-- **Every text that is shown is made of whole lines.** -/
theorem lined_of_shown? (hr : s.registry.Compiled) (h : s.shown? command = some (.ok text)) :
    Text.Lined text := by
  cases command with
  | set | clear => cases h
  | view target expand =>
      cases target with
      | all =>
          cases h
          exact lined_listing hr
      | function c =>
          rw [shown?, view_function_outcome, Option.some.injEq] at h
          obtain ⟨d, hd, rfl⟩ := exists_of_map_eq_ok h
          refine lined_details ?_
          split at hd
          · exact hr.unbroken_expression_of_alone hd
          · exact hr.unbroken_expression hd
  | table targets =>
      rw [shown?, table_outcome, Option.some.injEq] at h
      obtain ⟨t, ht, rfl⟩ := exists_of_map_eq_ok h
      have hnames : Text.Unbroken (Event.namesText targets) :=
        TruthTable.unbroken_spaced (not_break_of_truthTable hr ht)
      exact t.lined_render.under ⟨by simp, Text.Unbroken.append (by decide) hnames⟩
  | kmap c =>
      rw [shown?, kmap_outcome, Option.some.injEq] at h
      obtain ⟨map, hmap, rfl⟩ := exists_of_map_eq_ok h
      cases map with
      | undrawable vars => exact (whole_undrawableText vars).lined
      | grid g =>
          have hname : Text.Unbroken c.toString :=
            Text.unbroken_toString (not_break_of_karnaughMap hr hmap)
          exact g.lined_render.under ⟨by simp, Text.Unbroken.append (by decide) hname⟩

end Session

end Switching
