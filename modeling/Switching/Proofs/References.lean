/-
Who refers to whom.

What a registry holds was compiled under the letter it is stored under.  `Compiled` says
so, and it is all that the rest of the development asks of a registry: the variables and
the references that a definition lists are then those of its statement.

The references of the stored statements make a graph on the letters.  `Reaches` follows
one edge or more, to names that are stored and to names that are not, so a function on a
cycle is one that reaches itself.
-/
import Mathlib.Logic.Relation
import Switching.Registry

namespace Switching

namespace Definition

variable {d : Definition}

/-- The definition lists what its statement mentions. -/
structure Listed (d : Definition) : Prop where
  /-- The variables are those of the statement. -/
  vars_eq : d.vars = d.statement.vars
  /-- The functions referred to are those of the statement. -/
  nested_eq : d.nested = d.statement.references

theorem Listed.mem_nested (h : d.Listed) {f : Letter} :
    f ∈ d.nested.letters ↔ .ref f ∈ d.statement := by
  rw [← LetterSet.mem_def, h.nested_eq, Statement.mem_references]

/-- **All that compiling does**: it names, reads, strips and lists. -/
theorem compile_eq_ok_iff {c : Char} {text : String} : Definition.compile c text = .ok d ↔
    d.name.char = c ∧ Statement.scan text = .ok d.statement ∧
      d.expression = String.ofList (Text.strip text.toList) ∧ d.Listed := by
  constructor
  · intro h
    unfold compile Letter.named at h
    cases hc : Letter.ofChar? c with
    | none => simp [hc] at h
    | some l =>
        cases hs : Statement.scan text with
        | error e => simp [hc, hs] at h
        | ok s =>
            simp only [hc, hs, Except.ok.injEq] at h
            subst h
            exact ⟨Letter.ofChar?_eq_some_iff.mp hc, rfl, rfl, ⟨rfl, rfl⟩⟩
  · rintro ⟨rfl, hscan, hexpression, hvars, hnested⟩
    obtain ⟨name, expression, statement, vars, nested⟩ := d
    simp only at hscan hexpression hvars hnested
    subst hexpression hvars hnested
    simp only [compile, Letter.named, Letter.ofChar?_char, hscan]

/-- The expression that is kept has no blanks. -/
theorem not_blank_of_compile {c : Char} {text : String} (h : Definition.compile c text = .ok d) :
    ∀ c ∈ d.expression.toList, Text.isBlank c = false := by
  obtain ⟨-, -, hexpression, -⟩ := compile_eq_ok_iff.mp h
  intro c hc
  rw [hexpression, String.toList_ofList] at hc
  exact Text.not_blank_of_mem_strip hc

/-- Compiling lists what is mentioned. -/
theorem compile_eq_ok {c : Char} {text : String} (h : Definition.compile c text = .ok d) :
    d.name.char = c ∧ d.Listed := by
  obtain ⟨hname, -, -, hlisted⟩ := compile_eq_ok_iff.mp h
  exact ⟨hname, hlisted⟩

/-- A definition refers to no function exactly if no token of its statement is a
reference. -/
theorem Listed.isResolved_iff (h : d.Listed) :
    d.isResolved = true ↔ ∀ f, .ref f ∉ d.statement := by
  unfold isResolved
  rw [LetterSet.isEmpty, List.isEmpty_iff, List.eq_nil_iff_forall_not_mem]
  constructor
  · intro hnone f hf
    exact hnone f (h.mem_nested.mpr hf)
  · intro hnone f hf
    exact hnone f (h.mem_nested.mp hf)

end Definition

namespace Registry

/-- A character names what is stored under the letter that it is. -/
theorem lookup_eq_ok_iff {r : Registry} {c : Char} {d : Definition} :
    r.lookup c = .ok d ↔ ∃ l, l.char = c ∧ r.find? l = some d := by
  have hbind : (Letter.ofChar? c).bind r.find? = some d ↔
      ∃ l, l.char = c ∧ r.find? l = some d := by
    simp only [Option.bind_eq_some_iff, Letter.ofChar?_eq_some_iff]
  rw [← hbind]
  unfold lookup
  cases (Letter.ofChar? c).bind r.find? <;> simp

theorem lookup_eq_error {r : Registry} {c : Char} (h : ∀ l, l.char = c → r.find? l = none) :
    r.lookup c = .error (.notFound c) := by
  have hbind : (Letter.ofChar? c).bind r.find? = none := by
    rw [Option.bind_eq_none_iff]
    exact fun l hl => h l (Letter.ofChar?_eq_some_iff.mp hl)
  simp only [lookup, hbind]

/-- A look-up by character depends on what is stored under the letter that it is. -/
theorem lookup_congr {r s : Registry} {c : Char} (h : ∀ l, l.char = c → s.find? l = r.find? l) :
    s.lookup c = r.lookup c := by
  have hfind : (Letter.ofChar? c).bind s.find? = (Letter.ofChar? c).bind r.find? := by
    cases hl : Letter.ofChar? c with
    | none => rfl
    | some l => exact h l (Letter.ofChar?_eq_some_iff.mp hl)
  simp only [lookup, hfind]

/-- Every function stored was compiled under the letter it is stored under. -/
def Compiled (r : Registry) : Prop :=
  ∀ l d, r.find? l = some d → ∃ text, Definition.compile l.char text = .ok d

theorem compiled_empty : Compiled ∅ := by
  intro l d h
  rw [find?_empty] at h
  cases h

namespace Compiled

variable {r : Registry} {l : Letter} {d : Definition}

theorem define (hr : r.Compiled) {c : Char} {text : String}
    (h : Definition.compile c text = .ok d) : (r.define d).Compiled := by
  intro l d' hd
  rw [find?_define] at hd
  split at hd
  · rename_i hl
    rw [Option.some.injEq] at hd
    subst hd
    exact ⟨text, by rw [hl, (Definition.compile_eq_ok h).1]; exact h⟩
  · exact hr l d' hd

theorem name_eq (hr : r.Compiled) (hd : r.find? l = some d) : d.name = l := by
  obtain ⟨text, h⟩ := hr l d hd
  exact Letter.char_inj (Definition.compile_eq_ok h).1

theorem listed (hr : r.Compiled) (hd : r.find? l = some d) : d.Listed := by
  obtain ⟨text, h⟩ := hr l d hd
  exact (Definition.compile_eq_ok h).2

/-- What is looked up is stored under its own name. -/
theorem find?_of_lookup (hr : r.Compiled) {c : Char} (h : r.lookup c = .ok d) :
    r.find? d.name = some d := by
  obtain ⟨l, -, hd⟩ := lookup_eq_ok_iff.mp h
  rwa [hr.name_eq hd]

theorem char_name_of_lookup (hr : r.Compiled) {c : Char} (h : r.lookup c = .ok d) :
    d.name.char = c := by
  obtain ⟨l, hl, hd⟩ := lookup_eq_ok_iff.mp h
  rw [hr.name_eq hd, hl]

end Compiled

/-- The statement stored under `f` refers to `g`. -/
def Refers (r : Registry) (f g : Letter) : Prop :=
  ∃ d, r.find? f = some d ∧ .ref g ∈ d.statement

/-- References lead from `f` to `g`, directly or through other functions. -/
def Reaches (r : Registry) : Letter → Letter → Prop :=
  Relation.TransGen r.Refers

namespace Reaches

variable {r : Registry} {f g h : Letter} {d : Definition}

theorem of_mem (hd : r.find? f = some d) (hg : .ref g ∈ d.statement) : r.Reaches f g :=
  .single ⟨d, hd, hg⟩

theorem trans (hfg : r.Reaches f g) (hgh : r.Reaches g h) : r.Reaches f h :=
  Relation.TransGen.trans hfg hgh

/-- Who leads anywhere refers to something. -/
theorem exists_ref (hd : r.find? f = some d) (h : r.Reaches f g) : ∃ l, .ref l ∈ d.statement := by
  obtain ⟨l, ⟨d', hd', hl⟩, -⟩ := Relation.TransGen.head'_iff.mp h
  rw [hd, Option.some.injEq] at hd'
  subst hd'
  exact ⟨l, hl⟩

end Reaches

end Registry

end Switching
