/-
Other names for the functions.

Variables and functions draw their names from one alphabet, so a letter can stand for
both, and which of the two is meant is said by the `$` in front of it alone.  Here the
functions get other names: a permutation of the letters is applied to the names that
functions are stored under and to every reference, in statements and in the texts they
were read from, and to nothing else.

The results of resolving do not change.  This is not seen on the resolver, which goes
through the references in the order of the alphabet and comes upon them in another order
now, puts them in, tests sizes and remembers in another order.  It is seen on the full
expansion: a body is put in for a reference whatever the reference is called, so the
renamed function has the same expansion, and by `Switching.Proofs.Resolution` that is all
that a success depends on.
-/
import Mathlib.Logic.Equiv.Basic
import Switching.Proofs.Parsing
import Switching.Proofs.TruthTable

namespace Switching

/-! ### Renaming -/

/-- The token with another name for the function that it refers to. -/
def Token.renamed (σ : Equiv.Perm Letter) : Token → Token
  | .ref f => .ref (σ f)
  | t => t

namespace Letter

/-- The character with another name for the function that it names, if it is a name. -/
def renamedChar (σ : Equiv.Perm Letter) (c : Char) : Char :=
  match ofChar? c with
  | some l => (σ l).char
  | none => c

variable {σ : Equiv.Perm Letter} {c : Char} {l : Letter}

@[simp] theorem renamedChar_char (σ : Equiv.Perm Letter) (l : Letter) :
    renamedChar σ l.char = (σ l).char := by
  simp [renamedChar]

theorem renamedChar_of_none (h : ofChar? c = none) : renamedChar σ c = c := by
  simp [renamedChar, h]

/-- A character is a name before and after. -/
theorem ofChar?_renamedChar (σ : Equiv.Perm Letter) (c : Char) :
    ofChar? (renamedChar σ c) = (ofChar? c).map σ := by
  cases hc : ofChar? c with
  | none => rw [renamedChar_of_none hc, hc, Option.map_none]
  | some l =>
      rw [← ofChar?_eq_some_iff.mp hc, renamedChar_char, ofChar?_char, Option.map_some]

@[simp] theorem renamedChar_symm (σ : Equiv.Perm Letter) (c : Char) :
    renamedChar σ.symm (renamedChar σ c) = c := by
  cases hc : ofChar? c with
  | none => rw [renamedChar_of_none hc, renamedChar_of_none hc]
  | some l => simp [← ofChar?_eq_some_iff.mp hc]

end Letter

namespace LetterSet

/-- The set of the new names of its members. -/
def renamed (σ : Equiv.Perm Letter) (s : LetterSet) : LetterSet :=
  .ofList (s.letters.map σ)

@[simp] theorem mem_renamed {σ : Equiv.Perm Letter} {s : LetterSet} {l : Letter} :
    l ∈ s.renamed σ ↔ σ.symm l ∈ s := by
  rw [renamed, mem_ofList, List.mem_map]
  constructor
  · rintro ⟨k, hk, rfl⟩
    rwa [Equiv.symm_apply_apply]
  · intro hl
    exact ⟨_, hl, σ.apply_symm_apply l⟩

@[simp] theorem renamed_empty (σ : Equiv.Perm Letter) : (∅ : LetterSet).renamed σ = ∅ := by
  ext l
  simp

@[simp] theorem renamed_symm (σ : Equiv.Perm Letter) (s : LetterSet) :
    (s.renamed σ).renamed σ.symm = s := by
  ext l
  simp

end LetterSet

namespace Statement

/-- The statement with other names for the functions that it refers to. -/
def renamed (σ : Equiv.Perm Letter) (s : Statement) : Statement :=
  s.map (Token.renamed σ)

/-- The text of a statement with other names for the functions that it refers to: the
character behind each `$`. -/
def renamedText (σ : Equiv.Perm Letter) : List Char → List Char
  | '$' :: c :: rest => '$' :: Letter.renamedChar σ c :: renamedText σ rest
  | c :: rest => c :: renamedText σ rest
  | [] => []

section

variable {σ : Equiv.Perm Letter} {s : Statement} {f v : Letter}

theorem ref_mem_renamed : .ref f ∈ s.renamed σ ↔ .ref (σ.symm f) ∈ s := by
  rw [renamed, List.mem_map]
  constructor
  · rintro ⟨t, ht, heq⟩
    cases t with
    | ref g =>
        rw [Token.renamed, Token.ref.injEq] at heq
        rwa [← heq, Equiv.symm_apply_apply]
    | _ => cases heq
  · intro hf
    exact ⟨_, hf, by rw [Token.renamed, Equiv.apply_symm_apply]⟩

theorem var_mem_renamed : .var v ∈ s.renamed σ ↔ .var v ∈ s := by
  rw [renamed, List.mem_map]
  constructor
  · rintro ⟨t, ht, heq⟩
    cases t with
    | var w =>
        cases heq
        exact ht
    | _ => cases heq
  · intro hv
    exact ⟨_, hv, rfl⟩

theorem vars_renamed (σ : Equiv.Perm Letter) (s : Statement) : (s.renamed σ).vars = s.vars := by
  ext v
  rw [mem_vars, mem_vars, var_mem_renamed]

theorem references_renamed (σ : Equiv.Perm Letter) (s : Statement) :
    (s.renamed σ).references = s.references.renamed σ := by
  ext f
  rw [mem_references, ref_mem_renamed, LetterSet.mem_renamed, mem_references]

/-- Where nothing is referred to there is nothing to rename. -/
theorem renamed_eq_self (h : ∀ f, .ref f ∉ s) : s.renamed σ = s := by
  have hid : ∀ t ∈ s, Token.renamed σ t = t := by
    intro t ht
    cases t with
    | ref f => exact absurd ht (h f)
    | _ => rfl
  rw [renamed, List.map_congr_left hid, List.map_id']

@[simp] theorem renamed_symm (σ : Equiv.Perm Letter) (s : Statement) :
    (s.renamed σ).renamed σ.symm = s := by
  have hone : Token.renamed σ.symm ∘ Token.renamed σ = id := by
    funext t
    cases t <;> simp [Token.renamed]
  rw [renamed, renamed, List.map_map, hone, List.map_id]

/-- A body is put in for a reference whatever the reference is called. -/
theorem fill_renamed (body : Letter → Statement) :
    (s.renamed σ).fill (fun f => some (body f)) = s.fill fun f => some (body (σ f)) := by
  induction s with
  | nil => rfl
  | cons t s ih =>
      have hone : filled (fun f => some (body f)) (t.renamed σ) =
          filled (fun f => some (body (σ f))) t := by
        cases t <;> rfl
      have hcons : renamed σ (t :: s) = t.renamed σ :: renamed σ s := rfl
      rw [hcons, fill_cons, fill_cons, hone, ih]

/-! ### Reading a renamed text -/

theorem renamedText_cons {c : Char} (h : c ≠ '$') (rest : List Char) :
    renamedText σ (c :: rest) = c :: renamedText σ rest := by
  rw [renamedText]
  intro _ _ hc
  exact absurd hc h

theorem tokenOf?_ne_ref {c : Char} {t : Token} (h : tokenOf? c = some t) : t ≠ .ref f := by
  rintro rfl
  unfold tokenOf? at h
  split at h <;> simp at h

theorem push_renamed (read : List Token) (t : Token) :
    push (read.map (Token.renamed σ)) (t.renamed σ) = (push read t).map (Token.renamed σ) := by
  cases read with
  | nil => rfl
  | cons last read =>
      have hsame : juxtaposed (last.renamed σ) (t.renamed σ) = juxtaposed last t := by
        cases last <;> cases t <;> rfl
      rw [List.map_cons, push, push, hsame]
      split <;> rfl

/-- **Reading goes the same way under other names**, and is refused for the same
character. -/
theorem scanFrom_renamed (σ : Equiv.Perm Letter) (read : List Token) (cs : List Char) :
    scanFrom (read.map (Token.renamed σ)) (renamedText σ cs) =
      (scanFrom read cs).map (renamed σ) := by
  fun_induction scanFrom read cs with
  | case1 read => simp [renamedText, scanFrom, renamed, Except.map]
  | case2 read => simp [renamedText, scanFrom, Except.map]
  | case3 read c rest f hc ih =>
      have hnew : Letter.ofChar? (Letter.renamedChar σ c) = some (σ f) := by
        rw [Letter.ofChar?_renamedChar, hc, Option.map_some]
      rw [renamedText, scanFrom]
      simp only [hnew]
      rw [← ih, ← push_renamed]
      rfl
  | case4 read c rest hc =>
      have hnew : Letter.ofChar? (Letter.renamedChar σ c) = none := by
        rw [Letter.ofChar?_renamedChar, hc, Option.map_none]
      rw [renamedText, scanFrom]
      simp only [hnew]
      rfl
  | case5 read c rest hdollar t hc ih =>
      have hstay : t.renamed σ = t := by
        cases t with
        | ref f => exact absurd rfl (tokenOf?_ne_ref hc)
        | _ => rfl
      rw [renamedText_cons hdollar, scanFrom_cons hdollar hc, ← ih, ← push_renamed, hstay]
  | case6 read c rest hdollar hc =>
      rw [renamedText_cons hdollar, scanFrom_cons_of_none hdollar hc]
      rfl

theorem renamedText_symm (σ : Equiv.Perm Letter) (cs : List Char) :
    renamedText σ.symm (renamedText σ cs) = cs := by
  fun_induction renamedText σ cs with
  | case1 c rest ih => rw [renamedText, Letter.renamedChar_symm, ih]
  | case2 c rest hpair ih =>
      by_cases hc : c = '$'
      · cases rest with
        | nil =>
            subst hc
            rfl
        | cons next rest => exact absurd rfl (hpair next rest hc)
      · rw [renamedText_cons hc, ih]
  | case3 => rfl

theorem isBlank_renamedText {cs : List Char} (h : ∀ c ∈ cs, Text.isBlank c = false) :
    ∀ c ∈ renamedText σ cs, Text.isBlank c = false := by
  fun_induction renamedText σ cs with
  | case1 c rest ih =>
      have hname : Text.isBlank (Letter.renamedChar σ c) = false := by
        cases hc : Letter.ofChar? c with
        | none =>
            rw [Letter.renamedChar_of_none hc]
            exact h c (by simp)
        | some l =>
            rw [← Letter.ofChar?_eq_some_iff.mp hc, Letter.renamedChar_char]
            exact Letter.isBlank_char _
      have hrest := ih fun c hc => h c (by simp [hc])
      simp only [List.mem_cons, forall_eq_or_imp]
      exact ⟨by decide, hname, hrest⟩
  | case2 c rest hpair ih =>
      simp only [List.mem_cons, forall_eq_or_imp] at h ⊢
      exact ⟨h.1, ih h.2⟩
  | case3 => exact h

end

end Statement

namespace Definition

variable {σ : Equiv.Perm Letter} {d : Definition} {s : Statement} {c : Char} {text : String}

/-- The definition with other names for itself and for the functions that it refers to. -/
def renamed (σ : Equiv.Perm Letter) (d : Definition) : Definition where
  name := σ d.name
  expression := String.ofList (Statement.renamedText σ d.expression.toList)
  statement := d.statement.renamed σ
  vars := d.vars
  nested := d.nested.renamed σ

@[simp] theorem renamed_symm (σ : Equiv.Perm Letter) (d : Definition) :
    (d.renamed σ).renamed σ.symm = d := by
  simp [renamed, Statement.renamedText_symm]

theorem isResolved_renamed (σ : Equiv.Perm Letter) (d : Definition) :
    (d.renamed σ).isResolved = d.isResolved := by
  rw [Bool.eq_iff_iff, isResolved, isResolved, LetterSet.isEmpty_iff, LetterSet.isEmpty_iff]
  constructor
  · intro h
    rw [← d.nested.renamed_symm σ, ← LetterSet.renamed_empty σ.symm]
    exact congrArg _ h
  · intro h
    rw [renamed, h, LetterSet.renamed_empty]

theorem renamed_writtenOut (h : ∀ f, .ref f ∉ s) :
    (d.writtenOut s).renamed σ = (d.renamed σ).writtenOut s := by
  simp [renamed, writtenOut, Statement.renamed_eq_self h]

theorem compile_renamed (σ : Equiv.Perm Letter) (h : compile c text = .ok d) :
    compile (σ d.name).char (d.renamed σ).expression = .ok (d.renamed σ) := by
  obtain ⟨-, hscan, hexpression, hlisted⟩ := compile_eq_ok_iff.mp h
  have hstrip : Text.strip (Statement.renamedText σ (Text.strip text.toList)) =
      Statement.renamedText σ (Text.strip text.toList) :=
    Text.strip_eq_self (Statement.isBlank_renamedText fun _ => Text.not_blank_of_mem_strip)
  have hread := Statement.scanFrom_renamed σ [] (Text.strip text.toList)
  rw [Statement.scan] at hscan
  rw [hscan] at hread
  refine compile_eq_ok_iff.mpr ⟨rfl, ?_, ?_, ?_, ?_⟩
  · rw [renamed, hexpression, String.toList_ofList, Statement.scan, String.toList_ofList, hstrip]
    exact hread
  · rw [renamed, hexpression, String.toList_ofList, String.toList_ofList, hstrip]
  · rw [renamed, Statement.vars_renamed]
    exact hlisted.vars_eq
  · rw [renamed, Statement.references_renamed, hlisted.nested_eq]

end Definition

namespace Registry

variable {r : Registry} {σ : Equiv.Perm Letter} {d : Definition} {s : Statement} {l : Letter}

/-- The same functions under other names. -/
def renamed (σ : Equiv.Perm Letter) (r : Registry) : Registry :=
  ⟨fun l => (r.find? (σ.symm l)).map (Definition.renamed σ)⟩

theorem find?_renamed (σ : Equiv.Perm Letter) (hd : r.find? l = some d) :
    (r.renamed σ).find? (σ l) = some (d.renamed σ) := by
  simp [renamed, hd]

@[simp] theorem renamed_symm (σ : Equiv.Perm Letter) (r : Registry) :
    (r.renamed σ).renamed σ.symm = r := by
  ext l d
  simp [renamed, Function.comp_def]

theorem Compiled.renamed (hr : r.Compiled) (σ : Equiv.Perm Letter) : (r.renamed σ).Compiled := by
  intro l d hd
  obtain ⟨d₀, hd₀, rfl⟩ := Option.map_eq_some_iff.mp hd
  obtain ⟨text, htext⟩ := hr _ _ hd₀
  have hnew := Definition.compile_renamed σ htext
  rw [hr.name_eq hd₀, Equiv.apply_symm_apply] at hnew
  exact ⟨_, hnew⟩

theorem Expands.renamed (h : r.Expands d s) (σ : Equiv.Perm Letter) :
    (r.renamed σ).Expands (d.renamed σ) s := by
  induction h with
  | @intro d target body stored expanded ih =>
      have hfill : (d.renamed σ).statement.fill (fun f => some (body (σ.symm f))) =
          d.statement.fill fun f => some (body f) := by
        simp [Definition.renamed, Statement.fill_renamed]
      rw [← hfill]
      have hback : ∀ f, .ref f ∈ (d.renamed σ).statement → .ref (σ.symm f) ∈ d.statement :=
        fun f hf => Statement.ref_mem_renamed.mp hf
      have hstored : ∀ f, .ref f ∈ (d.renamed σ).statement →
          (r.renamed σ).find? f = some ((target (σ.symm f)).renamed σ) := by
        intro f hf
        have hnew := find?_renamed σ (stored _ (hback f hf))
        rwa [Equiv.apply_symm_apply] at hnew
      exact .intro hstored fun f hf => ih _ (hback f hf)

end Registry

namespace Resolver

variable {r : Resolver} {σ : Equiv.Perm Letter} {d d' : Definition}

/-- The resolver of the same functions under other names, with the same limit. -/
def renamed (σ : Equiv.Perm Letter) (r : Resolver) : Resolver :=
  ⟨r.registry.renamed σ, r.limit⟩

@[simp] theorem renamed_symm (σ : Equiv.Perm Letter) (r : Resolver) :
    (r.renamed σ).renamed σ.symm = r := by
  simp [renamed]

theorem Resolves.renamed (h : r.Resolves d d') (σ : Equiv.Perm Letter) :
    (r.renamed σ).Resolves (d.renamed σ) (d'.renamed σ) := by
  obtain ⟨s, hs, hsize, rfl⟩ := h
  refine ⟨s, hs.renamed σ, ?_, Definition.renamed_writtenOut hs.ref_not_mem⟩
  rw [Definition.isResolved_renamed]
  exact hsize

theorem resolves_renamed_iff :
    (r.renamed σ).Resolves (d.renamed σ) (d'.renamed σ) ↔ r.Resolves d d' := by
  constructor
  · intro h
    simpa using h.renamed σ.symm
  · intro h
    exact h.renamed σ

variable {c : Char}

/-- **A stored function and the renamed one come to the same**, but for the names. -/
theorem resolve_renamed_iff (hr : r.registry.Compiled) {l : Letter}
    (hd : r.registry.find? l = some d) :
    ((r.renamed σ).resolve (d.renamed σ) ∅).1 = .ok (d'.renamed σ) ↔
      (r.resolve d ∅).1 = .ok d' := by
  have hnew : (r.renamed σ).registry.find? (σ l) = some (d.renamed σ) :=
    Registry.find?_renamed σ hd
  rw [resolve_eq_ok_iff hr hd recalls_empty,
    resolve_eq_ok_iff (hr.renamed σ) hnew recalls_empty, resolves_renamed_iff]

/-- Everything that the renamed function comes to is something renamed. -/
theorem exists_resolve_of_renamed (hr : r.registry.Compiled) {l : Letter}
    (hd : r.registry.find? l = some d)
    (h : ((r.renamed σ).resolve (d.renamed σ) ∅).1 = .ok d') :
    ∃ d₀, (r.resolve d ∅).1 = .ok d₀ ∧ d' = d₀.renamed σ := by
  have hback : (d'.renamed σ.symm).renamed σ = d' := d'.renamed_symm σ.symm
  rw [← hback, resolve_renamed_iff hr hd] at h
  exact ⟨_, h, hback.symm⟩

theorem alone_renamed (hr : r.registry.Compiled) (h : r.alone c = .ok d) :
    (r.renamed σ).alone (Letter.renamedChar σ c) = .ok (d.renamed σ) := by
  obtain ⟨stored, hlookup, hres⟩ := alone_eq_ok_iff.mp h
  obtain ⟨l, rfl, hstored⟩ := Registry.lookup_eq_ok_iff.mp hlookup
  have hnew : (r.renamed σ).registry.find? (σ l) = some (stored.renamed σ) :=
    Registry.find?_renamed σ hstored
  refine alone_eq_ok_iff.mpr ⟨_, ?_, (resolve_renamed_iff hr hstored).mpr hres⟩
  exact Registry.lookup_eq_ok_iff.mpr ⟨_, (Letter.renamedChar_char σ l).symm, hnew⟩

end Resolver

/-! ### Tables -/

namespace TruthTable

variable {σ : Equiv.Perm Letter} {r : Resolver} {limit : Option Nat} {names : List Char}
  {t : TruthTable}

/-- A table is given of the same functions under other names. -/
theorem ofNames_renamed (σ : Equiv.Perm Letter) (hr : r.registry.Compiled)
    (h : (ofNames r limit names).outcome = .ok t) :
    (ofNames (r.renamed σ) limit (names.map (Letter.renamedChar σ))).outcome =
      .ok (t.mapDefinitions (Definition.renamed σ)) := by
  cases (outcome_eq_iff hr).mp h with
  | listed resolved shared union fits read =>
      have hnew : (t.mapDefinitions (Definition.renamed σ)).targets.map Target.definition =
          (t.targets.map Target.definition).map (Definition.renamed σ) := by
        rw [mapDefinitions, List.map_map, List.map_map]
        rfl
      have hcommon := commonVars_eq_ok_iff.mpr ⟨shared, union⟩
      rw [← commonVars_map (f := Definition.renamed σ) fun _ => rfl, ← hnew] at hcommon
      obtain ⟨shared', union'⟩ := commonVars_eq_ok_iff.mp hcommon
      refine (outcome_eq_iff (hr.renamed σ)).mpr (.listed ?_ shared' union' fits ?_)
      · rw [List.forall₂_map_left_iff, mapDefinitions, List.forall₂_map_right_iff]
        exact resolved.imp fun c target halone => Resolver.alone_renamed hr halone
      · intro target htarget
        obtain ⟨target₀, htarget₀, rfl⟩ := List.mem_map.mp htarget
        have hread := read target₀ htarget₀
        obtain ⟨n, hderives, -, -⟩ := Expr.parse_sound hread
        rwa [Definition.renamed, Statement.renamed_eq_self hderives.ref_not_mem]

/-- A table of renamed functions is the table of some functions, renamed. -/
theorem exists_ofNames_of_renamed (hr : r.registry.Compiled)
    (h : (ofNames (r.renamed σ) limit (names.map (Letter.renamedChar σ))).outcome = .ok t) :
    ∃ t₀, (ofNames r limit names).outcome = .ok t₀ := by
  have hback := ofNames_renamed σ.symm (hr.renamed σ) h
  have hnames : (names.map (Letter.renamedChar σ)).map (Letter.renamedChar σ.symm) = names := by
    simp [Function.comp_def]
  rw [Resolver.renamed_symm, hnames] at hback
  exact ⟨_, hback⟩

/-- **Functions and variables have their names apart.**  Whatever other names the functions
get, also such as are those of variables: what is stored stays compiled, each function is
resolved if it was, to the same statement and the same variables, and each table is given if
it was, with the same variables and the same rows. -/
theorem names_apart (σ : Equiv.Perm Letter) (hr : r.registry.Compiled) :
    (r.renamed σ).registry.Compiled ∧
    (∀ l d, r.registry.find? l = some d →
      (r.renamed σ).registry.find? (σ l) = some (d.renamed σ) ∧
      ((∃ d', (r.resolve d ∅).1 = .ok d') ↔
        ∃ d', ((r.renamed σ).resolve (d.renamed σ) ∅).1 = .ok d') ∧
      ∀ d₁ d₂, (r.resolve d ∅).1 = .ok d₁ →
        ((r.renamed σ).resolve (d.renamed σ) ∅).1 = .ok d₂ →
          d₂.statement = d₁.statement ∧ d₂.vars = d₁.vars) ∧
    ∀ limit names,
      ((∃ t, (ofNames r limit names).outcome = .ok t) ↔
        ∃ t, (ofNames (r.renamed σ) limit (names.map (Letter.renamedChar σ))).outcome = .ok t) ∧
      ∀ t₁ t₂, (ofNames r limit names).outcome = .ok t₁ →
        (ofNames (r.renamed σ) limit (names.map (Letter.renamedChar σ))).outcome = .ok t₂ →
          t₂.vars = t₁.vars ∧ t₂.rows = t₁.rows := by
  refine ⟨hr.renamed σ, ?_, ?_⟩
  · intro l d hd
    have hiff : ∀ d', ((r.renamed σ).resolve (d.renamed σ) ∅).1 = .ok (d'.renamed σ) ↔
        (r.resolve d ∅).1 = .ok d' := fun _ => Resolver.resolve_renamed_iff hr hd
    refine ⟨Registry.find?_renamed σ hd, ⟨?_, ?_⟩, ?_⟩
    · rintro ⟨d', hd'⟩
      exact ⟨_, (hiff d').mpr hd'⟩
    · rintro ⟨d', hd'⟩
      obtain ⟨d₀, hd₀, -⟩ := Resolver.exists_resolve_of_renamed hr hd hd'
      exact ⟨d₀, hd₀⟩
    · intro d₁ d₂ hd₁ hd₂
      rw [(hiff d₁).mpr hd₁, Except.ok.injEq] at hd₂
      subst hd₂
      obtain ⟨s, hs, -, rfl⟩ :=
        (Resolver.resolve_eq_ok_iff hr hd Resolver.recalls_empty).mp hd₁
      exact ⟨Statement.renamed_eq_self hs.ref_not_mem, rfl⟩
  · intro limit names
    refine ⟨⟨?_, ?_⟩, ?_⟩
    · rintro ⟨t, ht⟩
      exact ⟨_, ofNames_renamed σ hr ht⟩
    · rintro ⟨t, ht⟩
      exact exists_ofNames_of_renamed hr ht
    · intro t₁ t₂ ht₁ ht₂
      rw [ofNames_renamed σ hr ht₁, Except.ok.injEq] at ht₂
      subst ht₂
      exact ⟨rfl, t₁.rows_mapDefinitions _⟩

/-- The name of `f` is exchanged with the letter of one of its variables. -/
def crossed : Equiv.Perm Letter :=
  Equiv.swap .f .a

example : (Resolver.outer.renamed crossed).expression = "a*!$a+b*$a" := by decide

/-- With `f = a+b` under the name `a`, the table of `g = a*!$a+b*$a` is that of before. -/
theorem names_apart_crossed : Resolver.twice.Compiled ∧
    Resolver.twice.find? .g = some Resolver.outer ∧
    (∃ d', ((Resolver.renamed crossed ⟨Resolver.twice, 16⟩).resolve
      (Resolver.outer.renamed crossed) ∅).1 = .ok d') ∧
    ∃ t, (ofNames (Resolver.renamed crossed ⟨Resolver.twice, 16⟩) (some 2) ['g']).outcome = .ok t ∧
      ⟨1, [false, true], [true]⟩ ∈ t.rows := by
  have hd : Resolver.twice.find? .g = some Resolver.outer := rfl
  have hlookup : Resolver.twice.lookup 'g' = .ok Resolver.outer := rfl
  have hsize : checkSize (some 2) 2 = .ok () := rfl
  have ht := ofNames_singleton_eq_ok.mpr
    ⟨_, _, _, hlookup, Resolver.resolve_outer, hsize, Resolver.parse_outer, rfl⟩
  obtain ⟨-, hresolve, htables⟩ :=
    names_apart (r := ⟨Resolver.twice, 16⟩) crossed Resolver.compiled_twice
  obtain ⟨-, hiff, -⟩ := hresolve .g _ hd
  obtain ⟨hgiven, hsame⟩ := htables (some 2) ['g']
  obtain ⟨t, ht'⟩ := hgiven.mp ⟨_, ht⟩
  refine ⟨Resolver.compiled_twice, hd, hiff.mp ⟨_, Resolver.resolve_outer⟩, t, ht', ?_⟩
  rw [(hsame _ _ ht ht').2]
  exact mem_rows.mpr ⟨1, by decide, rfl⟩

end TruthTable

end Switching
