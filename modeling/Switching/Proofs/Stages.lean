/-
The stages of a table.

A table is made in four stages: the functions named are resolved, the variables that they
share are found and counted, and the statements are read.  Each stage goes over all
targets before the next one begins, and the first fault ends the request.  `Answers` says
so rule by rule, without a memory, a maximum or a journal: a rule names the stage that
fails and what it found there, and asks that all the stages before it went well.

What has to be shown is that the stages report to each other nothing but that.  The one
that could is the first, since its targets share a memory, and `Switching.Proofs.Memory`
says that they are resolved as each of them is alone.
-/
import Switching.Proofs.CommonVars
import Switching.Proofs.Memory

namespace Switching

/-! ### One after another -/

section

variable {α β ε : Type} {f : α → Except ε β}

theorem mapM_cons_of_ok {x : α} {y : β} (h : f x = .ok y) (xs : List α) :
    (x :: xs).mapM f = (xs.mapM f).map (y :: ·) := by
  rw [List.mapM_cons, h]
  cases xs.mapM f <;> rfl

theorem mapM_cons_of_error {x : α} {e : ε} (h : f x = .error e) (xs : List α) :
    (x :: xs).mapM f = .error e := by
  rw [List.mapM_cons, h]
  rfl

/-- A run over a list succeeds with what it gives for each element. -/
theorem mapM_eq_ok_iff {xs : List α} {ys : List β} :
    xs.mapM f = .ok ys ↔ List.Forall₂ (fun x y => f x = .ok y) xs ys := by
  induction xs generalizing ys with
  | nil => simp [pure, Except.pure, eq_comm]
  | cons x xs ih =>
      rw [List.forall₂_cons_left_iff]
      cases hx : f x with
      | error e => simp [mapM_cons_of_error hx]
      | ok y =>
          rw [mapM_cons_of_ok hx]
          cases hxs : xs.mapM f with
          | error e => simp [← ih, hxs, Except.map]
          | ok ys' => simp [← ih, hxs, Except.map, eq_comm]

/-- Where one step gives what the other gives and something is made of it, so does one run
over a list what the other gives. -/
theorem mapM_of_map {g : α → Except ε β} {k : β → β} (h : ∀ x, g x = (f x).map k) (xs : List α) :
    xs.mapM g = (xs.mapM f).map (List.map k) := by
  induction xs with
  | nil => rfl
  | cons x xs ih =>
      cases hx : f x with
      | error e =>
          have hgx : g x = .error e := by rw [h, hx, Except.map]
          rw [mapM_cons_of_error hx, mapM_cons_of_error hgx, Except.map]
      | ok y =>
          have hgx : g x = .ok (k y) := by rw [h, hx, Except.map]
          rw [mapM_cons_of_ok hx, mapM_cons_of_ok hgx, ih]
          cases xs.mapM f <;> rfl

/-- A run over a list fails as it does on the first element that it fails on. -/
theorem mapM_eq_error_iff {xs : List α} {e : ε} :
    xs.mapM f = .error e ↔ ∃ before x after, xs = before ++ x :: after ∧
      (∀ x' ∈ before, ∃ y, f x' = .ok y) ∧ f x = .error e := by
  constructor
  · intro h
    induction xs with
    | nil => cases h
    | cons x xs ih =>
        cases hx : f x with
        | error e' =>
            rw [mapM_cons_of_error hx, Except.error.injEq] at h
            exact ⟨[], x, xs, rfl, by simp, h ▸ hx⟩
        | ok y =>
            rw [mapM_cons_of_ok hx] at h
            cases hxs : xs.mapM f with
            | ok ys =>
                rw [hxs] at h
                cases h
            | error e' =>
                rw [hxs] at h ih
                obtain ⟨before, x', after, rfl, hbefore, hx'⟩ := ih h
                refine ⟨x :: before, x', after, rfl, ?_, hx'⟩
                intro b hb
                rcases List.mem_cons.mp hb with rfl | hb
                · exact ⟨y, hx⟩
                · exact hbefore b hb
  · intro hex
    obtain ⟨before, x, after, rfl, hbefore, hx⟩ := hex
    induction before with
    | nil => exact mapM_cons_of_error hx after
    | cons b before ih =>
        obtain ⟨y, hb⟩ := hbefore b (List.mem_cons_self ..)
        rw [List.cons_append, mapM_cons_of_ok hb,
          ih fun b' hb' => hbefore b' (List.mem_cons_of_mem _ hb')]
        rfl

end

namespace TruthTable

variable {r : Resolver} {limit : Option Nat} {names : List Char} {ds : List Definition}
  {t : TruthTable}

/-! ### The single stages -/

theorem readTarget_eq_ok {d : Definition} {target : Target} :
    (readTarget d).outcome = .ok target ↔
      target.definition = d ∧ Expr.parse d.statement = .ok target.tree := by
  obtain ⟨definition, tree⟩ := target
  unfold readTarget
  cases h : Expr.parse d.statement with
  | error reason => simp
  | ok e => simp [eq_comm]

theorem readTarget_eq_error {d : Definition} {e : Error} :
    (readTarget d).outcome = .error e ↔
      ∃ reason, Expr.parse d.statement = .error reason ∧ e = .malformed d.name reason := by
  unfold readTarget
  cases h : Expr.parse d.statement with
  | error reason => simp [eq_comm]
  | ok e => simp

theorem readTargets_outcome (ds : List Definition) :
    (readTargets ds).outcome = ds.mapM fun d => (readTarget d).outcome := by
  induction ds with
  | nil => rfl
  | cons d ds ih =>
      rw [readTargets, Journaled.outcome_bind, List.mapM_cons, ← ih]
      cases (readTarget d).outcome with
      | error e => rfl
      | ok target =>
          rw [Except.bind, Journaled.outcome_bind]
          cases (readTargets ds).outcome <;> rfl

theorem readTargets_eq_ok_iff {targets : List Target} :
    (readTargets ds).outcome = .ok targets ↔
      ds = targets.map Target.definition ∧
        ∀ target ∈ targets, Expr.parse target.definition.statement = .ok target.tree := by
  rw [readTargets_outcome, mapM_eq_ok_iff]
  constructor
  · intro h
    induction h with
    | nil => simp
    | cons hd _ ih =>
        obtain ⟨rfl, hparse⟩ := readTarget_eq_ok.mp hd
        simpa [hparse] using ih
  · intro h
    obtain ⟨rfl, hparse⟩ := h
    rw [List.forall₂_map_left_iff]
    exact List.forall₂_same.mpr fun target ht => readTarget_eq_ok.mpr ⟨rfl, hparse target ht⟩

theorem readTargets_eq_error_iff {e : Error} : (readTargets ds).outcome = .error e ↔
    ∃ before d after reason, ds = before ++ d :: after ∧
      (∀ b ∈ before, ∃ tree, Expr.parse b.statement = .ok tree) ∧
      Expr.parse d.statement = .error reason ∧ e = .malformed d.name reason := by
  have hreadable : ∀ b, (∃ target, (readTarget b).outcome = .ok target) ↔
      ∃ tree, Expr.parse b.statement = .ok tree := by
    intro b
    constructor
    · intro hex
      obtain ⟨target, htarget⟩ := hex
      exact ⟨_, (readTarget_eq_ok.mp htarget).2⟩
    · intro hex
      obtain ⟨tree, htree⟩ := hex
      exact ⟨⟨b, tree⟩, readTarget_eq_ok.mpr ⟨rfl, htree⟩⟩
  simp only [readTargets_outcome, mapM_eq_error_iff, hreadable, readTarget_eq_error,
    exists_and_left]

/-- The number of variables is within the limit, if there is one. -/
def Fits (limit : Option Nat) (vars : Nat) : Prop :=
  ∀ max, limit = some max → vars ≤ max

theorem checkSize_eq_ok {vars : Nat} (h : Fits limit vars) : checkSize limit vars = .ok () := by
  unfold checkSize
  split
  · rfl
  · exact if_pos (h _ rfl)

theorem checkSize_eq_error {vars max : Nat} (h : max < vars) :
    checkSize (some max) vars = .error (.tableTooLarge vars max) :=
  if_neg (Nat.not_le.mpr h)

/-- The stages after the first, one in the other. -/
theorem ofDefinitions_outcome (limit : Option Nat) (ds : List Definition) :
    (ofDefinitions limit ds).outcome = (commonVars ds).bind fun vars =>
      (checkSize limit vars.size).bind fun _ =>
        (readTargets ds).outcome.map fun targets => ⟨vars, targets⟩ := by
  unfold ofDefinitions
  simp only [Journaled.outcome_bind, Journaled.outcome_ofExcept, Journaled.outcome_record,
    Journaled.outcome_pure]
  cases (readTargets ds).outcome <;> rfl

theorem ofNames_outcome (hr : r.registry.Compiled) (limit : Option Nat) (names : List Char) :
    (ofNames r limit names).outcome =
      (names.mapM r.alone).bind fun ds => (ofDefinitions limit ds).outcome := by
  rw [ofNames, Journaled.outcome_bind, Resolver.outcome_journaled,
    Resolver.resolveNamed_fst hr names ∅ Resolver.recalls_empty]

/-- If all are resolved, the stages after the first decide. -/
theorem ofNames_of_forall₂ (hr : r.registry.Compiled)
    (h : List.Forall₂ (fun c d => r.alone c = .ok d) names ds) :
    (ofNames r limit names).outcome = (ofDefinitions limit ds).outcome := by
  rw [ofNames_outcome hr, mapM_eq_ok_iff.mpr h, Except.bind]

/-- The table with other definitions for its targets, of the same values. -/
def mapDefinitions (k : Definition → Definition) (t : TruthTable) : TruthTable where
  vars := t.vars
  targets := t.targets.map fun target => ⟨k target.definition, target.tree⟩

theorem rows_mapDefinitions (k : Definition → Definition) (t : TruthTable) :
    (t.mapDefinitions k).rows = t.rows := by
  refine List.map_congr_left fun index _ => ?_
  unfold row
  rw [mapDefinitions, List.map_map]
  rfl

/-! ### All stages -/

/-- What a request for a table comes to, by the first stage that something is wrong at. -/
inductive Answers (r : Resolver) (limit : Option Nat) (names : List Char) :
    Except Error TruthTable → Prop
  /-- The first name that is refused on its own is refused for the same reason. -/
  | unresolved {before after : List Char} {c : Char} {e : Error}
      (split : names = before ++ c :: after) (resolved : ∀ b ∈ before, ∃ d, r.alone b = .ok d)
      (refused : r.alone c = .error e) : Answers r limit names (.error e)
  /-- No target has the variables of all.  The last of the largest sets is shown, and the
  first set that is not within it. -/
  | apart {ds before after : List Definition} {big d : Definition}
      (resolved : List.Forall₂ (fun c d => r.alone c = .ok d) names ds)
      (unshared : ¬ Shared ds) (largest : LastLargest ds big)
      (split : ds = before ++ d :: after) (within : ∀ d' ∈ before, ∀ v ∈ d'.vars, v ∈ big.vars)
      (outside : ¬ ∀ v ∈ d.vars, v ∈ big.vars) :
      Answers r limit names (.error (.variableMismatch big.vars.letters d.vars.letters))
  /-- All variables together are too many. -/
  | tooLarge {ds : List Definition} {u : LetterSet} {max : Nat}
      (resolved : List.Forall₂ (fun c d => r.alone c = .ok d) names ds)
      (shared : Shared ds) (union : IsUnion u ds) (limited : limit = some max)
      (exceeds : max < u.size) : Answers r limit names (.error (.tableTooLarge u.size max))
  /-- The statement of the first target that cannot be read is at fault. -/
  | malformed {ds before after : List Definition} {d : Definition} {u : LetterSet}
      {reason : ParseError} (resolved : List.Forall₂ (fun c d => r.alone c = .ok d) names ds)
      (shared : Shared ds) (union : IsUnion u ds)
      (fits : Fits limit u.size) (split : ds = before ++ d :: after)
      (readable : ∀ b ∈ before, ∃ e, Expr.parse b.statement = .ok e)
      (unreadable : Expr.parse d.statement = .error reason) :
      Answers r limit names (.error (.malformed d.name reason))
  /-- Nothing is wrong: each name has its target, in order, with its tree. -/
  | listed {t : TruthTable}
      (resolved : List.Forall₂ (fun c target => r.alone c = .ok target.definition) names t.targets)
      (shared : Shared (t.targets.map Target.definition))
      (union : IsUnion t.vars (t.targets.map Target.definition))
      (fits : Fits limit t.vars.size)
      (read : ∀ target ∈ t.targets, Expr.parse target.definition.statement = .ok target.tree) :
      Answers r limit names (.ok t)

namespace Answers

variable {out : Except Error TruthTable}

/-- What a rule says comes to pass. -/
theorem outcome_eq (hr : r.registry.Compiled) (h : Answers r limit names out) :
    (ofNames r limit names).outcome = out := by
  cases h with
  | unresolved split resolved refused =>
      rw [ofNames_outcome hr, mapM_eq_error_iff.mpr ⟨_, _, _, split, resolved, refused⟩]
      rfl
  | apart resolved unshared largest split within outside =>
      rw [ofNames_of_forall₂ hr resolved, ofDefinitions_outcome,
        commonVars_eq_error largest split within outside]
      rfl
  | tooLarge resolved shared union limited exceeds =>
      rw [ofNames_of_forall₂ hr resolved, ofDefinitions_outcome,
        commonVars_eq_ok_iff.mpr ⟨shared, union⟩, Except.bind, limited,
        checkSize_eq_error exceeds]
      rfl
  | malformed resolved shared union fits split readable unreadable =>
      rw [ofNames_of_forall₂ hr resolved, ofDefinitions_outcome,
        commonVars_eq_ok_iff.mpr ⟨shared, union⟩, Except.bind, checkSize_eq_ok fits, Except.bind,
        readTargets_eq_error_iff.mpr ⟨_, _, _, _, split, readable, unreadable, rfl⟩]
      rfl
  | @listed t resolved shared union fits read =>
      rw [ofNames_of_forall₂ hr (List.forall₂_map_right_iff.mpr resolved), ofDefinitions_outcome,
        commonVars_eq_ok_iff.mpr ⟨shared, union⟩, Except.bind, checkSize_eq_ok fits, Except.bind,
        readTargets_eq_ok_iff.mpr ⟨rfl, read⟩]
      rfl

/-- Some rule applies. -/
theorem exists_answer (r : Resolver) (limit : Option Nat) (names : List Char) :
    ∃ out, Answers r limit names out := by
  cases hnames : names.mapM r.alone with
  | error e =>
      obtain ⟨before, c, after, split, resolved, refused⟩ := mapM_eq_error_iff.mp hnames
      exact ⟨_, .unresolved split resolved refused⟩
  | ok ds =>
      have resolved := mapM_eq_ok_iff.mp hnames
      by_cases shared : Shared ds
      · have union := isUnion_largest shared
        by_cases fits : Fits limit (largest ds).size
        · cases hread : (readTargets ds).outcome with
          | error e =>
              obtain ⟨before, d, after, reason, split, readable, unreadable, -⟩ :=
                readTargets_eq_error_iff.mp hread
              exact ⟨_, .malformed resolved shared union fits split readable unreadable⟩
          | ok targets =>
              obtain ⟨rfl, read⟩ := readTargets_eq_ok_iff.mp hread
              have resolved := List.forall₂_map_right_iff.mp resolved
              exact ⟨.ok ⟨_, targets⟩, .listed resolved shared union fits read⟩
        · simp only [Fits, not_forall, Nat.not_le] at fits
          obtain ⟨max, limited, exceeds⟩ := fits
          exact ⟨_, .tooLarge resolved shared union limited exceeds⟩
      · obtain ⟨big, before, d, after, hbig, split, within, outside⟩ := exists_outside shared
        exact ⟨_, .apart resolved shared hbig split within outside⟩

end Answers

/-- The rules say all that there is to say. -/
theorem outcome_eq_iff (hr : r.registry.Compiled) {out : Except Error TruthTable} :
    (ofNames r limit names).outcome = out ↔ Answers r limit names out := by
  constructor
  · rintro rfl
    obtain ⟨out, h⟩ := Answers.exists_answer r limit names
    rwa [h.outcome_eq hr]
  · intro h
    exact h.outcome_eq hr

/-- **A table is refused at the first stage that something is wrong at, and given if nothing
is.**  Names are resolved in the first stage each as if it were alone: one that is not
stored is not found, and any other is resolved afresh. -/
theorem ofNames_stages (hr : r.registry.Compiled) :
    (∀ out, (ofNames r limit names).outcome = out ↔ Answers r limit names out) ∧
    (∀ c, (∀ l, l.char = c → r.registry.find? l = none) → r.alone c = .error (.notFound c)) ∧
    (∀ l d, r.registry.find? l = some d → r.alone l.char = (r.resolve d ∅).1) ∧
    (∀ c d, r.alone c = .ok d → d.name.char = c) ∧
    ∀ t, (ofNames r limit names).outcome = .ok t → t.targets.length = names.length ∧
      ∀ place < names.length, ∃ column, t.column? place = some column ∧
        column.length = t.size := by
  refine ⟨fun out => outcome_eq_iff hr, ?_, ?_, fun c d h => (Resolver.of_alone hr h).1, ?_⟩
  · intro c habsent
    exact Resolver.alone_of_lookup_error (Registry.lookup_eq_error habsent)
  · intro l d hd
    exact Resolver.alone_of_lookup (Registry.lookup_eq_ok_iff.mpr ⟨l, rfl, hd⟩)
  · intro t ht
    cases (outcome_eq_iff hr).mp ht with
    | listed resolved =>
        have hlength := resolved.length_eq.symm
        refine ⟨hlength, ?_⟩
        intro place hplace
        rw [← hlength] at hplace
        exact ⟨_, by rw [column?, List.getElem?_eq_getElem hplace, Option.map_some], by simp⟩

/-- Refused in the first stage: the second function has one token too many, before a name
that is not stored and a limit that the first function is beyond. -/
theorem ofNames_stages_twice : Resolver.twice.Compiled ∧
    (ofNames ⟨Resolver.twice, 15⟩ (some 1) ['f', 'g', 'x']).outcome =
      .error (.statementTooLarge .g 16 15) := by
  have hinner : Resolver.alone ⟨Resolver.twice, 15⟩ 'f' = .ok Resolver.inner :=
    Resolver.alone_of_isResolved rfl rfl
  have houter : Resolver.alone ⟨Resolver.twice, 15⟩ 'g' =
      .error (.statementTooLarge .g 16 15) :=
    (Resolver.alone_of_lookup rfl).trans Resolver.resolve_outer_refused
  refine ⟨Resolver.compiled_twice, ?_⟩
  refine ((ofNames_stages Resolver.compiled_twice).1 _).mpr ?_
  have hsplit : ['f', 'g', 'x'] = ['f'] ++ 'g' :: ['x'] := rfl
  exact .unresolved hsplit (by simp [hinner]) houter

end TruthTable

end Switching
