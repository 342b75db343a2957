/-
What the journal gives away.

Whoever reads the journal of a request without its answer learns how it went.  The request is
announced and then worked on.  The work leaves nothing but details, with one exception: a
statement that cannot be read is recorded as an error, and there the work ends.  A refusal is
then warned of at the very end, and so is a map that cannot be drawn, although that is an
answer.

So there are four ways for a journal to end, and `Closing` lists them.  Work is put together
from smaller work by sequencing, which only ever leads on from work that has gone well, and such
work leaves nothing but details.  That is all that has to be known of a stage: that it fails
without a record or, if a statement is at fault, with the one error.
-/
import Switching.Proofs.Malformed
import Switching.Proofs.Refusals
import Switching.Proofs.Replies

namespace Switching

/-! ### How a journal ends -/

section

variable {α β : Type}

/-- No statement is at fault. -/
def Faultless (out : Except Error α) : Prop :=
  ∀ f reason, out ≠ .error (.malformed f reason)

/-- What is refused for no statement is so whatever was asked for. -/
theorem Faultless.error {e : Error} (h : Faultless (.error e : Except Error α)) :
    Faultless (.error e : Except Error β) := by
  intro f reason he
  refine h f reason ?_
  cases he
  rfl

/-- The end of the journal of work: nothing, or the statement that is at fault. -/
inductive Fault : Except Error α → List Event → Prop
  /-- No statement is at fault. -/
  | none {out : Except Error α} (faultless : Faultless out) : Fault out []
  /-- A statement cannot be read. -/
  | unparsable (d : Definition) (reason : ParseError) :
      Fault (.error (.malformed d.name reason)) [.unparsable d reason]

/-- The end of the journal of a request, if `undrawn` says why an answer is no map. -/
inductive Closing : Option String → Except Error α → List Event → Prop
  /-- There is an answer. -/
  | granted (a : α) : Closing none (.ok a) []
  /-- There is an answer, but it is no map. -/
  | undrawn (a : α) (c : Char) (vars : Nat) :
      Closing (some (undrawableText vars)) (.ok a) [.undrawable c vars]
  /-- The request is refused. -/
  | refused {undrawn : Option String} (operation : Operation) {e : Error}
      (faultless : Faultless (.error e : Except Error α)) :
      Closing undrawn (.error e) [.refused operation e]
  /-- The request is refused for a statement that is at fault. -/
  | malformed {undrawn : Option String} (operation : Operation) (d : Definition)
      (reason : ParseError) : Closing undrawn (.error (.malformed d.name reason))
        [.unparsable d reason, .refused operation (.malformed d.name reason)]

/-- What is made of the answer makes no difference to the journal. -/
theorem Closing.map {undrawn : Option String} {out : Except Error α}
    {closing : List Event} (h : Closing undrawn out closing) (f : α → β) :
    Closing undrawn (out.map f) closing := by
  cases h with
  | granted a => exact .granted (f a)
  | undrawn a c vars => exact .undrawn (f a) c vars
  | refused operation hfaultless => exact .refused operation hfaultless.error
  | malformed operation d reason => exact .malformed operation d reason

/-! ### What there is to read -/

/-- What there is to warn of: the reason for a refusal, or why an answer is no map. -/
def trouble? (undrawn : Option String) : Except Error α → Option String
  | .error e => some e.message
  | .ok _ => undrawn

/-- The journal of a request tells how it went. -/
structure Tells (first : Event) (trouble : Option String) (out : Except Error α)
    (events : List Event) : Prop where
  /-- The request is announced before anything else, and nothing is announced later. -/
  announced : ∃ later, events = first :: later ∧ first.level = .info ∧
    ∀ ev ∈ later, ev.level ≠ .info
  /-- There is a warning exactly if there is trouble. -/
  warned_iff : (∃ ev ∈ events, ev.level = .warn) ↔ ∃ text, trouble = some text
  /-- It is the only one, it comes last, and it says what the trouble is. -/
  warned : ∀ text, trouble = some text → ∃ before last, events = before ++ [last] ∧
    last.level = .warn ∧ (∀ ev ∈ before, ev.level ≠ .warn) ∧
    ∃ lead, last.message = lead ++ text
  /-- There is an error exactly if a statement is at fault. -/
  failed_iff : (∃ ev ∈ events, ev.level = .error) ↔
    ∃ f reason, out = .error (.malformed f reason)
  /-- It is the only one and comes before the warning, and nothing between them. -/
  failed : ∀ f reason, out = .error (.malformed f reason) → ∃ before error last,
    events = before ++ [error, last] ∧ error.level = .error ∧ last.level = .warn ∧
    ∀ ev ∈ before, ev.level ≠ .error

section

variable {out : Except Error α} {undrawn : Option String} {first : Event}
  {details closing : List Event}

/-- What has not been recorded before is recorded at the end or not at all. -/
theorem exists_level_iff {g : Level} (h : ∀ ev ∈ details, ev.level ≠ g) :
    (∃ ev ∈ details ++ closing, ev.level = g) ↔ ∃ ev ∈ closing, ev.level = g := by
  constructor
  · rintro ⟨ev, hev, hlevel⟩
    rcases List.mem_append.mp hev with hev | hev
    · exact absurd hlevel (h ev hev)
    · exact ⟨ev, hev, hlevel⟩
  · rintro ⟨ev, hev, hlevel⟩
    exact ⟨ev, List.mem_append_right _ hev, hlevel⟩

namespace Closing

/-- Nothing is announced at the end. -/
theorem level_ne_info (h : Closing undrawn out closing) : ∀ ev ∈ closing, ev.level ≠ .info := by
  cases h <;> simp [Event.level]

theorem exists_warn_iff (h : Closing undrawn out closing) :
    (∃ ev ∈ closing, ev.level = .warn) ↔ ∃ text, trouble? undrawn out = some text := by
  cases h <;> simp [trouble?, Event.level]

theorem exists_error_iff (h : Closing undrawn out closing) :
    (∃ ev ∈ closing, ev.level = .error) ↔ ∃ f reason, out = .error (.malformed f reason) := by
  cases h with
  | granted | undrawn | malformed => simp [Event.level]
  | refused operation faultless =>
      constructor
      · rintro ⟨ev, hev, hlevel⟩
        rw [List.mem_singleton.mp hev] at hlevel
        cases hlevel
      · rintro ⟨f, reason, hout⟩
        exact absurd hout (faultless f reason)

/-- The last words are about the trouble, and there has been no other warning. -/
theorem exists_last (h : Closing undrawn out closing) {text : String}
    (htext : trouble? undrawn out = some text) : ∃ before last, closing = before ++ [last] ∧
      last.level = .warn ∧ (∀ ev ∈ before, ev.level ≠ .warn) ∧
      ∃ lead, last.message = lead ++ text := by
  cases h with
  | granted a => cases htext
  | undrawn a c vars =>
      cases htext
      exact ⟨[], _, rfl, rfl, by simp, _, rfl⟩
  | @refused _ operation e faultless =>
      cases htext
      exact ⟨[], _, rfl, rfl, by simp, operation.word ++ " failed: ", rfl⟩
  | malformed operation d reason =>
      cases htext
      exact ⟨[_], _, rfl, rfl, by simp [Event.level], operation.word ++ " failed: ", rfl⟩

/-- If a statement is at fault, there is nothing but the error and the warning. -/
theorem eq_pair (h : Closing undrawn out closing) {f : Letter} {reason : ParseError}
    (hout : out = .error (.malformed f reason)) : ∃ error last, closing = [error, last] ∧
      error.level = .error ∧ last.level = .warn := by
  cases h with
  | granted | undrawn => cases hout
  | refused operation faultless => exact absurd hout (faultless f reason)
  | malformed operation d reason => exact ⟨_, _, rfl, rfl, rfl⟩

/-- The journal tells of each of the four endings. -/
theorem tells (h : Closing undrawn out closing) (hfirst : first.level = .info)
    (hdetails : ∀ ev ∈ details, ev.level = .debug) :
    Tells first (trouble? undrawn out) out (first :: (details ++ closing)) := by
  have hbefore : ∀ g : Level, g ≠ .info → g ≠ .debug →
      ∀ ev ∈ first :: details, ev.level ≠ g := by
    rintro g hinfo hdebug ev hev rfl
    rcases List.mem_cons.mp hev with rfl | hev
    · exact hinfo hfirst
    · exact hdebug (hdetails ev hev)
  have hwarn := hbefore .warn (by decide) (by decide)
  have herror := hbefore .error (by decide) (by decide)
  constructor
  case announced =>
    refine ⟨_, rfl, hfirst, List.forall_mem_append.mpr ⟨fun ev hev => ?_, h.level_ne_info⟩⟩
    rw [hdetails ev hev]
    decide
  case warned_iff => rw [← List.cons_append, exists_level_iff hwarn, h.exists_warn_iff]
  case failed_iff => rw [← List.cons_append, exists_level_iff herror, h.exists_error_iff]
  case warned =>
    intro text htext
    obtain ⟨before, last, rfl, hlast, hothers, hlead⟩ := h.exists_last htext
    refine ⟨first :: details ++ before, last, ?_, hlast, ?_, hlead⟩
    · rw [List.append_assoc, List.cons_append]
    · exact List.forall_mem_append.mpr ⟨hwarn, hothers⟩
  case failed =>
    intro f reason hout
    obtain ⟨error, last, rfl, hlevel, hlast⟩ := h.eq_pair hout
    exact ⟨first :: details, error, last, rfl, hlevel, hlast, herror⟩

end Closing

end

/-! ### Work -/

namespace Journaled

/-- There are details in the journal, and behind them what `P` has for the outcome. -/
def Leaves (run : Journaled α) (P : Except Error α → List Event → Prop) : Prop :=
  ∃ details closing, run.events = details ++ closing ∧
    (∀ ev ∈ details, ev.level = .debug) ∧ P run.outcome closing

variable {run : Journaled α} {next : α → Journaled β} {out : Except Error α}
  {undrawn : Option String}

theorem leaves_pure (a : α) : (pure a : Journaled α).Leaves Fault :=
  ⟨[], [], rfl, by simp, .none nofun⟩

theorem leaves_ofExcept (h : Faultless out) : (ofExcept out).Leaves Fault :=
  ⟨[], [], rfl, by simp, .none h⟩

theorem leaves_record {ev : Event} (h : ev.level = .debug) : (record ev).Leaves Fault :=
  ⟨[ev], [], rfl, by simpa using h, .none nofun⟩

/-- **Sequencing leaves what its parts leave**: where the first part goes well it leaves only
details, and where it does not the second is never reached. -/
theorem Leaves.bind {P : Except Error α → List Event → Prop}
    {Q : Except Error β → List Event → Prop} (h : run.Leaves P)
    (hok : ∀ a closing, P (.ok a) closing → closing = [])
    (herror : ∀ e closing, P (.error e) closing → Q (.error e) closing)
    (hnext : ∀ a, run.outcome = .ok a → (next a).Leaves Q) : (run >>= next).Leaves Q := by
  obtain ⟨details, closing, hevents, hdetails, hclosing⟩ := h
  unfold Leaves
  rw [events_bind, outcome_bind, hevents]
  cases hout : run.outcome with
  | error e =>
      rw [hout] at hclosing
      exact ⟨details, closing, List.append_nil _, hdetails, herror e closing hclosing⟩
  | ok a =>
      rw [hout] at hclosing
      obtain ⟨later, closing', hlater, hdebug, hclosing'⟩ := hnext a hout
      have hjoined : details ++ closing ++ (next a).events = details ++ later ++ closing' := by
        rw [hok a closing hclosing, List.append_nil, hlater, List.append_assoc]
      exact ⟨_, closing', hjoined, List.forall_mem_append.mpr ⟨hdetails, hdebug⟩, hclosing'⟩

/-- Work that leads on to work. -/
theorem Leaves.work (h : run.Leaves Fault)
    (hnext : ∀ a, run.outcome = .ok a → (next a).Leaves Fault) : (run >>= next).Leaves Fault := by
  refine h.bind ?_ ?_ hnext
  · intro a closing hclosing
    cases hclosing
    rfl
  · intro e closing hclosing
    cases hclosing with
    | none hfaultless => exact .none hfaultless.error
    | unparsable d reason => exact .unparsable d reason

/-- Work that is reported on. -/
theorem Leaves.reported (h : run.Leaves Fault) (operation : Operation) :
    (Journaled.reported operation run).Leaves (Closing none) := by
  obtain ⟨details, closing, hevents, hdetails, hclosing⟩ := h
  obtain ⟨out, events⟩ := run
  subst hevents
  cases hclosing with
  | none hfaultless =>
      cases out with
      | error e =>
          exact ⟨details, _, congrArg (· ++ _) (List.append_nil details), hdetails,
            .refused operation hfaultless⟩
      | ok a => exact ⟨details, [], List.append_nil _, hdetails, .granted a⟩
  | unparsable d reason =>
      exact ⟨details, _, List.append_assoc .., hdetails, .malformed operation d reason⟩

/-- An answer that is made of work that has been reported on. -/
theorem Leaves.answer (h : run.Leaves (Closing none))
    (hnext : ∀ a, run.outcome = .ok a → (next a).Leaves (Closing undrawn)) :
    (run >>= next).Leaves (Closing undrawn) := by
  refine h.bind ?_ ?_ hnext
  · intro a closing hclosing
    cases hclosing
    rfl
  · intro e closing hclosing
    cases hclosing with
    | refused operation hfaultless => exact .refused operation hfaultless.error
    | malformed operation d reason => exact .malformed operation d reason

end Journaled

end

/-! ### Stages -/

theorem Registry.faultless_lookup (r : Registry) (c : Char) : Faultless (r.lookup c) := by
  intro f reason h
  unfold lookup at h
  split at h <;> cases h

namespace Resolver

/-- What is written out is never read on the way. -/
theorem faultless_alone (r : Resolver) (hr : r.registry.Compiled) (c : Char) :
    Faultless (r.alone c) := by
  cases hd : r.registry.lookup c with
  | error e =>
      rw [alone_of_lookup_error hd]
      have hlookup := r.registry.faultless_lookup c
      rw [hd] at hlookup
      exact hlookup.error
  | ok stored =>
      rw [alone_of_lookup hd]
      intro f reason h
      have hwarranted := resolve_eq_error hr (hr.find?_of_lookup hd) h
      cases hwarranted

theorem faultless_resolveNamed (r : Resolver) (hr : r.registry.Compiled) (names : List Char) :
    Faultless (r.resolveNamed names ∅).1 := by
  rw [resolveNamed_fst hr names ∅ recalls_empty]
  intro f reason h
  obtain ⟨before, c, after, -, -, hc⟩ := mapM_eq_error_iff.mp h
  exact r.faultless_alone hr c f reason hc

/-- What is written out is noted, and nothing else. -/
theorem leaves_journaled {α : Type} {run : Memory → Except Error α × Memory}
    (h : Faultless (run ∅).1) : (journaled run).Leaves Fault := by
  refine ⟨_, [], (List.append_nil _).symm, ?_, .none h⟩
  intro ev hev
  obtain ⟨d, -, rfl⟩ := List.mem_map.mp hev
  rfl

end Resolver

namespace TruthTable

theorem faultless_commonVars (ds : List Definition) : Faultless (commonVars ds) := by
  intro f reason h
  simp only [commonVars] at h
  split at h <;> cases h

theorem faultless_checkSize (limit : Option Nat) (vars : Nat) :
    Faultless (checkSize limit vars) := by
  intro f reason h
  unfold checkSize at h
  split at h
  · cases h
  · split at h <;> cases h

/-- A statement that is read leaves a detail, and one that cannot be read an error. -/
theorem leaves_readTarget (d : Definition) : (readTarget d).Leaves Fault := by
  unfold readTarget
  cases Expr.parse d.statement with
  | error reason => exact ⟨[], _, rfl, by simp, .unparsable d reason⟩
  | ok tree => exact ⟨[_], [], rfl, by simp [Event.level], .none nofun⟩

/-- Nothing is read behind the first statement at fault. -/
theorem leaves_readTargets (ds : List Definition) : (readTargets ds).Leaves Fault := by
  induction ds with
  | nil => exact Journaled.leaves_pure []
  | cons d ds ih =>
      refine (leaves_readTarget d).work fun target _ => ?_
      exact ih.work fun targets _ => Journaled.leaves_pure _

theorem leaves_ofDefinitions (limit : Option Nat) (ds : List Definition) :
    (ofDefinitions limit ds).Leaves Fault := by
  refine (Journaled.leaves_ofExcept (faultless_commonVars ds)).work fun vars _ => ?_
  refine (Journaled.leaves_ofExcept (faultless_checkSize limit vars.size)).work fun _ _ => ?_
  refine (leaves_readTargets ds).work fun targets _ => ?_
  exact (Journaled.leaves_record rfl).work fun _ _ => Journaled.leaves_pure _

theorem leaves_ofNames {r : Resolver} (hr : r.registry.Compiled) (limit : Option Nat)
    (names : List Char) : (ofNames r limit names).Leaves Fault := by
  refine (Resolver.leaves_journaled (r.faultless_resolveNamed hr names)).work fun ds _ => ?_
  exact leaves_ofDefinitions limit ds

end TruthTable

/-- A character that fits nothing is all that a text is refused for. -/
theorem Statement.faultless_scanFrom (read : List Token) (cs : List Char) :
    Faultless (scanFrom read cs) := by
  fun_induction scanFrom read cs with
  | case3 | case5 => assumption
  | case1 | case2 | case4 | case6 =>
      intro f reason h
      cases h

theorem Letter.faultless_named (c : Char) : Faultless (named c) := by
  intro f reason h
  unfold named at h
  split at h <;> cases h

theorem Definition.faultless_compile (name : Char) (expression : String) :
    Faultless (compile name expression) := by
  intro f reason h
  unfold compile at h
  split at h
  · rename_i e hname
    cases h
    exact Letter.faultless_named name f reason hname
  · split at h
    · rename_i e hscan
      cases h
      exact Statement.faultless_scanFrom _ _ f reason hscan
    · cases h

/-! ### Requests -/

namespace Session

variable {s : Session} {q : Request} {first : Event}

/-- How a request is announced in the journal, if it is one that is. -/
def announcement? (s : Session) : Request → Option Event
  | .define name expression => some (.defining name expression)
  | .clear => some (.clearing s.registry.size)
  | .view target expand => some (.viewing target expand)
  | .table targets => some (.tabulating targets)
  | .kmap c => some (.mapping c)
  | .truthTable _ | .karnaughMap _ | .execute _ | .executeLine _ => none

/-- How it is said that the map asked for cannot be drawn, if it cannot. -/
def undrawn? (s : Session) : Request → Option String
  | .kmap c =>
    match (s.karnaughMap c).outcome with
    | .ok (.undrawable vars) => some (undrawableText vars)
    | _ => none
  | _ => none

theorem leaves_resolved (hr : s.registry.Compiled) (c : Char) :
    (s.resolved c).Leaves Fault := by
  have hlookup := s.registry.faultless_lookup c
  refine (Journaled.leaves_ofExcept hlookup).work fun stored hstored => ?_
  have hstored : s.resolver.registry.lookup c = .ok stored := hstored
  have halone := s.resolver.faultless_alone hr c
  rw [Resolver.alone_of_lookup hstored] at halone
  exact Resolver.leaves_journaled halone

theorem leaves_viewText (hr : s.registry.Compiled) (target : ViewTarget) (expand : Bool) :
    (s.viewText target expand).Leaves Fault := by
  cases target with
  | all => exact Journaled.leaves_pure _
  | function c =>
      cases expand with
      | true => exact (leaves_resolved hr c).work fun d _ => Journaled.leaves_pure _
      | false =>
          have hlookup := s.registry.faultless_lookup c
          exact (Journaled.leaves_ofExcept hlookup).work fun d _ => Journaled.leaves_pure _

theorem leaves_karnaughMap (hr : s.registry.Compiled) (c : Char) :
    (s.karnaughMap c).Leaves Fault := by
  refine (leaves_resolved hr c).work fun d _ => ?_
  split
  · exact Journaled.leaves_pure _
  · exact (TruthTable.leaves_ofDefinitions none [d]).work fun t _ => Journaled.leaves_pure _

theorem level_of_announcement? (h : s.announcement? q = some first) : first.level = .info := by
  cases q with
  | truthTable | karnaughMap | execute | executeLine => cases h
  | define | clear | view | table | kmap =>
      cases h
      rfl

/-- Behind the announcement stands what the rest of a request leaves. -/
theorem exists_closing_of_leaves {α β : Type} {run : Journaled α} {undrawn : Option String}
    (h : run.Leaves (Closing undrawn)) (f : α → β) :
    ∃ details closing,
      (f <$> (Journaled.record first >>= fun _ => run)).events = first :: (details ++ closing) ∧
      (∀ ev ∈ details, ev.level = .debug) ∧
      Closing undrawn (f <$> (Journaled.record first >>= fun _ => run)).outcome closing := by
  obtain ⟨details, closing, hevents, hdetails, hclosing⟩ := h
  refine ⟨details, closing, ?_, hdetails, ?_⟩
  · rw [← hevents]
    obtain ⟨out, events⟩ := run
    cases out with
    | error e => rfl
    | ok a => exact List.append_nil _
  · rw [Journaled.outcome_map, Journaled.outcome_bind]
    exact hclosing.map f

/-- **What a journal is made of**: the announcement, details, and one of the four endings. -/
theorem exists_closing (hr : s.registry.Compiled) (h : s.announcement? q = some first) :
    ∃ details closing, (s.perform q).events = first :: (details ++ closing) ∧
      (∀ ev ∈ details, ev.level = .debug) ∧
      Closing (s.undrawn? q) (s.perform q).outcome closing := by
  cases q with
  | truthTable | karnaughMap | execute | executeLine => cases h
  | define name expression =>
      cases h
      have hcompile := Definition.faultless_compile name expression
      have hcompiled : ∀ d, (Journaled.record (.compiled d)).Leaves Fault :=
        fun _ => Journaled.leaves_record rfl
      have hwork := (Journaled.leaves_ofExcept hcompile).work fun d _ =>
        (hcompiled d).work fun _ _ => Journaled.leaves_pure d
      refine exists_closing_of_leaves ((hwork.reported .define).answer fun d _ => ?_) _
      exact ⟨[.stored d], [], rfl, by simp [Event.level], .granted _⟩
  | clear =>
      cases h
      exact ⟨[], [], rfl, by simp, .granted _⟩
  | view target expand =>
      cases h
      exact exists_closing_of_leaves ((leaves_viewText hr target expand).reported .view) _
  | table targets =>
      cases h
      have hwork := TruthTable.leaves_ofNames (r := s.resolver) hr (some s.config.maxTableVars)
        targets
      refine exists_closing_of_leaves ((hwork.reported .table).answer fun t _ => ?_) _
      exact ⟨[.tabulated targets], [], rfl, by simp [Event.level], .granted _⟩
  | kmap c =>
      cases h
      have hwork := leaves_karnaughMap hr c
      refine exists_closing_of_leaves ((hwork.reported .kmap).answer fun map hmap => ?_) _
      rw [Journaled.outcome_reported] at hmap
      simp only [undrawn?, hmap]
      cases map with
      | grid g => exact ⟨[], [], rfl, by simp, .granted _⟩
      | undrawable vars => exact ⟨[], _, rfl, by simp, .undrawn _ c vars⟩

/-- **The journal tells the outcome.**  Every request that is announced leaves a journal that
begins with the announcement, that warns at its end if and only if the request is refused or
has no map for an answer, and in which an error comes before that if and only if a statement is
at fault.  A line that is no command leaves none. -/
theorem journal_tells (hs : s.Reachable) :
    (∀ q first, s.announcement? q = some first →
      Tells first (trouble? (s.undrawn? q) (s.perform q).outcome) (s.perform q).outcome
        (s.perform q).events) ∧
    ∀ line e, Command.parse line = .error e → (s.executeLine line).events = [] := by
  constructor
  · intro q first hfirst
    obtain ⟨details, closing, hevents, hdetails, hclosing⟩ := exists_closing hs.compiled hfirst
    rw [hevents]
    exact hclosing.tells (level_of_announcement? hfirst) hdetails
  · intro line e h
    unfold executeLine
    rw [h]
    rfl

/-- A session with a function that is no expression. -/
def tattered : Session :=
  (new {}).run [.define 'f' "a)(b"]

/-- The journal of a table of it tells what is wrong with it. -/
theorem journal_tells_tattered : tattered.Reachable ∧
    tattered.announcement? (.table ['f']) = some (.tabulating ['f']) ∧
    Tells (.tabulating ['f'])
      (some "Function 'f' could not be evaluated: unexpected ')' at token 2")
      (.error (.malformed .f (.leftover .rparen 2)) : Except Error (Session × Reply))
      (tattered.perform (.table ['f'])).events := by
  have hreach : tattered.Reachable := ⟨_, _, rfl⟩
  have hparse : Expr.parse Resolver.torn.statement = .error (.leftover .rparen 2) := by
    have hany : ∀ a b : Letter, Expr.parse [.var a, .rparen, .op .and, .lparen, .var b] =
        .error (.leftover .rparen 2) := by
      intro a b
      cbv
    exact hany .a .b
  have hstored : tattered.resolver.registry.lookup 'f' = .ok Resolver.torn := rfl
  have hread := TruthTable.readTarget_eq_error.mpr ⟨_, hparse, rfl⟩
  have htable : (tattered.truthTable ['f']).outcome =
      .error (.malformed .f (.leftover .rparen 2)) := by
    rw [truthTable_of_fits (Resolver.alone_of_isResolved hstored rfl) (by decide), hread]
    rfl
  have hout : (tattered.perform (.table ['f'])).outcome =
      .error (.malformed .f (.leftover .rparen 2)) := by
    rw [perform, Journaled.outcome_map, table_outcome, htable]
    rfl
  have htells := (journal_tells hreach).1 (.table ['f']) _ rfl
  rw [hout] at htells
  exact ⟨hreach, rfl, htells⟩

end Session

end Switching
