/-
What a conversation leaves behind.

A run of a session is a list of requests of any kind, in any order, each of which is
answered or refused before the next one is made.  The log of a run keeps them with their
answers, and it is all that the results below look at: which definitions the log shows
to have been stored, and which of them no later one and no `clear` has undone.

Two steps lead there.  One request changes what is stored under a letter in two ways only,
by storing under that letter or by removing everything, and only if it succeeds.  By
induction on the last request of a run, what is stored is then what the log says was
stored last.  A session has nothing else to remember, so runs with the same definitions
left go on in the same way.
-/
import Mathlib.Data.List.Induction
import Switching.Console.Transcript
import Switching.Proofs.References

namespace Switching

/-! ### Requests -/

/-- What a session can be asked. -/
inductive Request
  /-- To store an expression under a name. -/
  | define (name : Char) (expression : String)
  /-- To remove every function. -/
  | clear
  /-- To show definitions. -/
  | view (target : ViewTarget) (expand : Bool)
  /-- To show a truth table. -/
  | table (targets : List Char)
  /-- To show a Karnaugh map. -/
  | kmap (target : Char)
  /-- For a truth table that is not shown. -/
  | truthTable (targets : List Char)
  /-- For a Karnaugh map that is not shown. -/
  | karnaughMap (target : Char)
  /-- To carry out a command. -/
  | execute (command : Command)
  /-- To read a line and carry out the command. -/
  | executeLine (line : String)

/-- What a session replies with. -/
inductive Reply
  /-- Nothing but that it is done. -/
  | done
  /-- A text. -/
  | text (reply : String)
  /-- A truth table. -/
  | table (t : TruthTable)
  /-- A Karnaugh map. -/
  | map (m : KarnaughMap)
  /-- A text in pages. -/
  | pages (pages : List String)

/-- What a request can do to the functions stored. -/
inductive Change
  /-- An expression takes the place of what was stored under a name. -/
  | store (name : Char) (expression : String)
  /-- Nothing is stored any more. -/
  | removeAll

/-- What a command is to change. -/
def Command.change? : Command → Option Change
  | .set name expression => some (.store name expression)
  | .clear => some .removeAll
  | .view .. | .table _ | .kmap _ => none

/-- What a request is to change.  A line that is no command is to change nothing. -/
def Request.change? : Request → Option Change
  | .define name expression => some (.store name expression)
  | .clear => some .removeAll
  | .execute command => command.change?
  | .executeLine line =>
    match Command.parse line with
    | .ok command => command.change?
    | .error _ => none
  | .view .. | .table _ | .kmap _ | .truthTable _ | .karnaughMap _ => none

/-- A request with the reply to it and what went into the journal. -/
structure Exchange where
  /-- The request. -/
  request : Request
  /-- The reply, or the reason for refusing it. -/
  reply : Except Error Reply
  /-- What went into the journal. -/
  events : List Event

attribute [ext] Session

namespace Session

/-- Answers a request: the session afterwards and the reply. -/
def perform (s : Session) : Request → Journaled (Session × Reply)
  | .define name expression => (·, .done) <$> s.define name expression
  | .clear => (·, .done) <$> s.clear
  | .view target expand => (s, .text ·) <$> s.view target expand
  | .table targets => (s, .text ·) <$> s.table targets
  | .kmap target => (s, .text ·) <$> s.kmap target
  | .truthTable targets => (s, .table ·) <$> s.truthTable targets
  | .karnaughMap target => (s, .map ·) <$> s.karnaughMap target
  | .execute command => Prod.map id .pages <$> s.execute command
  | .executeLine line => Prod.map id .pages <$> s.executeLine line

/-- The session after a request; one that is refused leaves it as it is. -/
def after (s : Session) (q : Request) : Session :=
  match (s.perform q).outcome with
  | .ok (next, _) => next
  | .error _ => s

/-- The session after requests made one after another. -/
def run (s : Session) (qs : List Request) : Session :=
  qs.foldl after s

/-- A request as it goes into the log. -/
def exchange (s : Session) (q : Request) : Exchange where
  request := q
  reply := (s.perform q).outcome.map Prod.snd
  events := (s.perform q).events

/-- The log of requests made one after another. -/
def log (s : Session) : List Request → List Exchange
  | [] => []
  | q :: qs => s.exchange q :: (s.after q).log qs

theorem run_append (s : Session) (qs later : List Request) :
    s.run (qs ++ later) = (s.run qs).run later :=
  List.foldl_append

theorem log_append (s : Session) (qs later : List Request) :
    s.log (qs ++ later) = s.log qs ++ (s.run qs).log later := by
  induction qs generalizing s with
  | nil => rfl
  | cons q qs ih => exact congrArg (s.exchange q :: ·) (ih (s.after q))

theorem run_concat (s : Session) (qs : List Request) (q : Request) :
    s.run (qs ++ [q]) = (s.run qs).after q :=
  s.run_append qs [q]

theorem log_concat (s : Session) (qs : List Request) (q : Request) :
    s.log (qs ++ [q]) = s.log qs ++ [(s.run qs).exchange q] :=
  s.log_append qs [q]

end Session

/-! ### What a log says -/

namespace Exchange

/-- The request has been granted. -/
def Succeeds (ex : Exchange) : Prop :=
  ∃ reply, ex.reply = .ok reply

/-- The expression has been stored under the letter. -/
def Stores (ex : Exchange) (x : Letter) (expression : String) : Prop :=
  ex.request.change? = some (.store x.char expression) ∧ ex.Succeeds

/-- Everything has been removed. -/
def Clears (ex : Exchange) : Prop :=
  ex.request.change? = some .removeAll ∧ ex.Succeeds

end Exchange

/-- Somewhere in the log is an exchange with `P`, and all since then have `Q`. -/
def Since (log : List Exchange) (P Q : Exchange → Prop) : Prop :=
  ∃ before ex after, log = before ++ ex :: after ∧ P ex ∧ ∀ later ∈ after, Q later

/-- Something has been stored under the letter, and nothing has been removed since. -/
def Stored (log : List Exchange) (x : Letter) : Prop :=
  Since log (fun ex => ∃ expression, ex.Stores x expression) fun later => ¬ later.Clears

/-- The expression has been stored under the letter, and since then nothing has been stored
under it and nothing removed. -/
def LastStored (log : List Exchange) (x : Letter) (expression : String) : Prop :=
  Since log (·.Stores x expression) fun later => ¬ later.Clears ∧ ∀ other, ¬ later.Stores x other

section

variable {log : List Exchange} {ex : Exchange} {P Q : Exchange → Prop} {x : Letter}

theorem not_since_nil : ¬ Since [] P Q := by
  rintro ⟨before, ex, after, h, -⟩
  simp at h

/-- A log is read from its end. -/
theorem since_concat_iff : Since (log ++ [ex]) P Q ↔ P ex ∨ Since log P Q ∧ Q ex := by
  constructor
  · intro hex
    obtain ⟨before, first, after, hsplit, hfirst, hafter⟩ := hex
    rcases List.eq_nil_or_concat after with rfl | ⟨after, last, rfl⟩
    · obtain ⟨-, hlast⟩ := List.append_inj' hsplit rfl
      rw [List.cons.injEq] at hlast
      exact .inl (hlast.1 ▸ hfirst)
    · rw [List.concat_eq_append] at hsplit hafter
      rw [← List.cons_append, ← List.append_assoc] at hsplit
      obtain ⟨rfl, hlast⟩ := List.append_inj' hsplit rfl
      rw [List.cons.injEq] at hlast
      obtain ⟨rfl, -⟩ := hlast
      refine .inr ⟨⟨before, first, after, rfl, hfirst, ?_⟩, hafter ex (by simp)⟩
      exact fun later hlater => hafter later (List.mem_append_left _ hlater)
  · intro h
    rcases h with hP | ⟨⟨before, first, after, rfl, hfirst, hafter⟩, hQ⟩
    · exact ⟨log, ex, [], rfl, hP, by simp⟩
    · refine ⟨before, first, after ++ [ex], by simp, hfirst, ?_⟩
      intro later hlater
      rcases List.mem_append.mp hlater with hlater | hlater
      · exact hafter later hlater
      · rwa [List.mem_singleton.mp hlater]

/-- Of what has been stored since the last removal, something has been stored last. -/
theorem stored_iff : Stored log x ↔ ∃ expression, LastStored log x expression := by
  unfold Stored LastStored
  induction log using List.reverseRecOn with
  | nil => simp [not_since_nil]
  | append_singleton log ex ih =>
      simp only [since_concat_iff, ih]
      by_cases hstores : ∃ expression, ex.Stores x expression
      · obtain ⟨expression, hstores⟩ := hstores
        exact ⟨fun _ => ⟨expression, .inl hstores⟩, fun _ => .inl ⟨expression, hstores⟩⟩
      · rw [not_exists] at hstores
        simp [hstores]

end

/-! ### What one request does -/

namespace Exchange

variable {ex : Exchange} {x y : Letter} {e e' : String}

theorem Stores.unique (h : ex.Stores x e) (h' : ex.Stores y e') : x = y ∧ e = e' := by
  have hchange := h.1.symm.trans h'.1
  rw [Option.some.injEq, Change.store.injEq] at hchange
  exact ⟨Letter.char_inj hchange.1, hchange.2⟩

theorem Stores.not_clears (h : ex.Stores x e) : ¬ ex.Clears := by
  intro h'
  cases h.1.symm.trans h'.1

end Exchange

namespace Session

section

variable {s s' : Session} {q : Request} {reply : Reply} {ch : Change} {command : Command}

/-- The session after a change, if it can be made. -/
def changed (s : Session) : Change → Except Error Session
  | .store name expression => (Definition.compile name expression).map fun d =>
      { s with registry := s.registry.define d }
  | .removeAll => .ok { s with registry := ∅ }

theorem define_outcome (s : Session) (name : Char) (expression : String) :
    (s.define name expression).outcome = s.changed (.store name expression) := by
  simp only [define, changed, Journaled.outcome_bind, Journaled.outcome_record,
    Journaled.outcome_reported, Journaled.outcome_ofExcept, Journaled.outcome_pure]
  cases Definition.compile name expression <;> rfl

/-- A reply that comes with the session as it was. -/
theorem eq_of_map {α β : Type} {run : Journaled α} {f : α → β}
    (h : ((fun a => (s, f a)) <$> run).outcome.map Prod.fst = .ok s') : s' = s := by
  rw [Journaled.outcome_map] at h
  cases hrun : run.outcome with
  | error e =>
      rw [hrun] at h
      cases h
  | ok a =>
      rw [hrun] at h
      cases h
      rfl

/-- A command that is to change something makes its change, or is refused if that fails, and
sends no pages. -/
theorem execute_of_change (s : Session) (h : command.change? = some ch) :
    (s.execute command).outcome = (s.changed ch).map fun next => (next, []) := by
  cases command with
  | set name expression =>
      cases h
      rw [execute, Journaled.outcome_bind, define_outcome]
      rfl
  | clear =>
      cases h
      rfl
  | view | table | kmap => cases h

theorem execute_change (s : Session) (h : command.change? = some ch) :
    (s.execute command).outcome.map Prod.fst = s.changed ch := by
  rw [execute_of_change s h]
  cases s.changed ch <;> rfl

theorem execute_reads (h : command.change? = none)
    (hout : (s.execute command).outcome.map Prod.fst = .ok s') : s' = s := by
  cases command with
  | set | clear => cases h
  | view | table | kmap => exact eq_of_map hout

theorem perform_execute (s : Session) (command : Command) :
    (s.perform (.execute command)).outcome.map Prod.fst =
      (s.execute command).outcome.map Prod.fst := by
  rw [perform, Journaled.outcome_map]
  cases (s.execute command).outcome <;> rfl

theorem executeLine_outcome {line : String} (s : Session) (h : Command.parse line = .ok command) :
    (s.executeLine line).outcome = (s.execute command).outcome := by
  rw [executeLine, Journaled.outcome_bind, Journaled.outcome_ofExcept, h, Except.bind]

theorem executeLine_outcome_of_error {line : String} {e : Error} (s : Session)
    (h : Command.parse line = .error e) : (s.executeLine line).outcome = .error e := by
  rw [executeLine, Journaled.outcome_bind, Journaled.outcome_ofExcept, h, Except.bind]

/-- A line that is a command is carried out like the command. -/
theorem perform_executeLine {line : String} (s : Session) (h : Command.parse line = .ok command) :
    (s.perform (.executeLine line)).outcome = (s.perform (.execute command)).outcome := by
  rw [perform, perform, Journaled.outcome_map, Journaled.outcome_map, executeLine_outcome s h]

/-- A line that is no command is refused. -/
theorem perform_executeLine_of_error {line : String} {e : Error} (s : Session)
    (h : Command.parse line = .error e) : (s.perform (.executeLine line)).outcome = .error e := by
  rw [perform, Journaled.outcome_map, executeLine_outcome_of_error s h]
  rfl

/-- A request that is to change something makes its change, or is refused if that fails. -/
theorem perform_change (s : Session) (h : q.change? = some ch) :
    (s.perform q).outcome.map Prod.fst = s.changed ch := by
  cases q with
  | define name expression =>
      cases h
      rw [perform, Journaled.outcome_map, define_outcome]
      cases s.changed (.store name expression) <;> rfl
  | clear =>
      cases h
      rfl
  | execute command => rw [perform_execute, execute_change s h]
  | executeLine line =>
      rw [Request.change?] at h
      cases hline : Command.parse line with
      | error e =>
          rw [hline] at h
          cases h
      | ok command =>
          rw [hline] at h
          rw [perform_executeLine s hline, perform_execute, execute_change s h]
  | view | table | kmap | truthTable | karnaughMap => cases h

/-- Any other request leaves the session as it is. -/
theorem perform_reads (h : q.change? = none)
    (hout : (s.perform q).outcome.map Prod.fst = .ok s') : s' = s := by
  cases q with
  | define | clear => cases h
  | view | table | kmap | truthTable | karnaughMap => exact eq_of_map hout
  | execute command =>
      rw [perform_execute] at hout
      exact execute_reads h hout
  | executeLine line =>
      rw [Request.change?] at h
      cases hline : Command.parse line with
      | error e =>
          rw [perform_executeLine_of_error s hline] at hout
          cases hout
      | ok command =>
          rw [hline] at h
          rw [perform_executeLine s hline, perform_execute] at hout
          exact execute_reads h hout

/-- The session after a request that is granted. -/
theorem after_of_ok (h : (s.perform q).outcome = .ok (s', reply)) :
    s.after q = s' ∧ (s.exchange q).Succeeds := by
  constructor
  · rw [after, h]
  · exact ⟨reply, by rw [exchange, h]; rfl⟩

/-- The session after a request that is refused. -/
theorem after_of_error {e : Error} (h : (s.perform q).outcome = .error e) :
    s.after q = s ∧ ¬ (s.exchange q).Succeeds := by
  constructor
  · rw [after, h]
  · rintro ⟨reply, hreply⟩
    rw [exchange, h] at hreply
    cases hreply

/-- A request that is to change something leaves the session changed, or as it is if the
change fails. -/
theorem after_of_change (s : Session) (h : q.change? = some ch) :
    s.after q = match s.changed ch with
      | .ok next => next
      | .error _ => s := by
  rw [← s.perform_change h]
  cases hout : (s.perform q).outcome with
  | error e => exact (after_of_error hout).1
  | ok out => exact (after_of_ok hout).1

/-- **All that a request can do.**  It stores what it compiles, it removes everything, or it
leaves the session as it is. -/
theorem after_cases (s : Session) (q : Request) :
    (∃ x e d, (s.exchange q).Stores x e ∧ Definition.compile x.char e = .ok d ∧
      s.after q = { s with registry := s.registry.define d }) ∨
    ((s.exchange q).Clears ∧ s.after q = { s with registry := ∅ }) ∨
    ((∀ x e, ¬ (s.exchange q).Stores x e) ∧ ¬ (s.exchange q).Clears ∧ s.after q = s) := by
  cases hout : (s.perform q).outcome with
  | error e =>
      obtain ⟨hafter, hrefused⟩ := after_of_error hout
      exact .inr (.inr ⟨fun _ _ h => hrefused h.2, fun h => hrefused h.2, hafter⟩)
  | ok out =>
      obtain ⟨next, reply⟩ := out
      obtain ⟨hafter, hgranted⟩ := after_of_ok hout
      cases hch : q.change? with
      | none =>
          have hkept : next = s := perform_reads hch (congrArg (Except.map Prod.fst) hout)
          refine .inr (.inr ⟨fun _ _ h => ?_, fun h => ?_, hafter.trans hkept⟩)
          · cases hch.symm.trans h.1
          · cases hch.symm.trans h.1
      | some ch =>
          have hchanged := (s.perform_change hch).symm
          rw [hout, Except.map] at hchanged
          cases ch with
          | removeAll =>
              cases hchanged
              exact .inr (.inl ⟨⟨hch, hgranted⟩, hafter⟩)
          | store name expression =>
              rw [changed] at hchanged
              cases hd : Definition.compile name expression with
              | error e =>
                  rw [hd] at hchanged
                  cases hchanged
              | ok d =>
                  rw [hd] at hchanged
                  cases hchanged
                  obtain ⟨rfl, -⟩ := Definition.compile_eq_ok hd
                  exact .inl ⟨d.name, expression, d, ⟨hch, hgranted⟩, hd, hafter⟩

theorem config_after (s : Session) (q : Request) : (s.after q).config = s.config := by
  obtain ⟨_, _, _, -, -, h⟩ | ⟨-, h⟩ | ⟨-, -, h⟩ := s.after_cases q
  all_goals rw [h]

/-- What is stored after a request: what it stored, or what was stored before. -/
theorem find?_after {x : Letter} {d : Definition} : (s.after q).registry.find? x = some d ↔
    (∃ e, (s.exchange q).Stores x e ∧ Definition.compile x.char e = .ok d) ∨
    s.registry.find? x = some d ∧ ¬ (s.exchange q).Clears ∧
      ∀ other, ¬ (s.exchange q).Stores x other := by
  obtain ⟨y, e, d', hstores, hd', h⟩ | ⟨hclears, h⟩ | ⟨hstores, hclears, h⟩ := s.after_cases q
  · have hname : d'.name = y := Letter.char_inj (Definition.compile_eq_ok hd').1
    rw [h, Registry.find?_define, hname]
    by_cases hxy : x = y
    · subst hxy
      rw [if_pos rfl, Option.some.injEq]
      constructor
      · rintro rfl
        exact .inl ⟨e, hstores, hd'⟩
      · rintro (⟨e', hstores', hd⟩ | ⟨-, -, hnone⟩)
        · rw [(hstores.unique hstores').2, hd, Except.ok.injEq] at hd'
          exact hd'.symm
        · exact absurd hstores (hnone e)
    · have hnone : ∀ other, ¬ (s.exchange q).Stores x other := fun other hother =>
        hxy (hother.unique hstores).1
      rw [if_neg hxy]
      simp [hnone, hstores.not_clears]
  · rw [h, Registry.find?_empty]
    have hnone : ∀ other, ¬ (s.exchange q).Stores x other := fun other hother =>
      hother.not_clears hclears
    simp [hnone, hclears]
  · rw [h]
    simp [hstores, hclears]

/-- What has been stored has been compiled. -/
theorem exists_compile {x : Letter} {e : String} (h : (s.exchange q).Stores x e) :
    ∃ d, Definition.compile x.char e = .ok d := by
  obtain ⟨y, e', d, hstores, hd, -⟩ | ⟨hclears, -⟩ | ⟨hstores, -, -⟩ := s.after_cases q
  · obtain ⟨rfl, rfl⟩ := h.unique hstores
    exact ⟨d, hd⟩
  · exact absurd hclears h.not_clears
  · exact absurd h (hstores x e)

/-- A request that is refused, or that asks for nothing to be changed, changes nothing. -/
theorem after_eq_self (h : ¬ (s.exchange q).Succeeds ∨ q.change? = none) : s.after q = s := by
  obtain ⟨_, _, _, hstores, -, -⟩ | ⟨hclears, -⟩ | ⟨-, -, hafter⟩ := s.after_cases q
  · rcases h with hrefused | hreads
    · exact absurd hstores.2 hrefused
    · cases hreads.symm.trans hstores.1
  · rcases h with hrefused | hreads
    · exact absurd hclears.2 hrefused
    · cases hreads.symm.trans hclears.1
  · exact hafter

/-! ### What a run leads to -/

theorem config_run (s : Session) (qs : List Request) : (s.run qs).config = s.config := by
  induction qs generalizing s with
  | nil => rfl
  | cons q qs ih => exact (ih (s.after q)).trans (s.config_after q)

theorem exists_exchange {qs : List Request} {ex : Exchange} (h : ex ∈ s.log qs) :
    ∃ s' q, ex = Session.exchange s' q := by
  induction qs generalizing s with
  | nil => cases h
  | cons q qs ih =>
      rcases List.mem_cons.mp h with rfl | h
      · exact ⟨s, q, rfl⟩
      · exact ih h

/-- **What is stored after a run is what was stored last.** -/
theorem find?_run (config : Config) (qs : List Request) {x : Letter} {d : Definition} :
    ((new config).run qs).registry.find? x = some d ↔
      ∃ e, LastStored ((new config).log qs) x e ∧ Definition.compile x.char e = .ok d := by
  induction qs using List.reverseRecOn generalizing d with
  | nil =>
      have hempty : ((new config).run []).registry.find? x = none := rfl
      simp [hempty, LastStored, log, not_since_nil]
  | append_singleton qs q ih =>
      rw [run_concat, log_concat, find?_after, ih]
      simp only [LastStored, since_concat_iff, or_and_right, exists_or]
      refine or_congr Iff.rfl ?_
      constructor
      · rintro ⟨⟨e, hlast, hd⟩, hkept⟩
        exact ⟨e, ⟨hlast, hkept⟩, hd⟩
      · rintro ⟨e, ⟨hlast, hkept⟩, hd⟩
        exact ⟨⟨e, hlast, hd⟩, hkept⟩

theorem exists_find?_run (config : Config) (qs : List Request) {x : Letter} :
    (∃ d, ((new config).run qs).registry.find? x = some d) ↔ Stored ((new config).log qs) x := by
  simp only [find?_run, stored_iff]
  constructor
  · rintro ⟨_, e, hlast, -⟩
    exact ⟨e, hlast⟩
  · rintro ⟨e, hlast⟩
    obtain ⟨before, ex, after, hsplit, hstores, -⟩ := id hlast
    have hmem : ex ∈ (new config).log qs := by simp [hsplit]
    obtain ⟨s', q, rfl⟩ := exists_exchange hmem
    obtain ⟨d, hd⟩ := exists_compile hstores
    exact ⟨d, e, hlast, hd⟩

/-- The session comes about by a run. -/
def Reachable (s : Session) : Prop :=
  ∃ config qs, (new config).run qs = s

/-- What a run leaves was compiled. -/
theorem Reachable.compiled (h : s.Reachable) : s.registry.Compiled := by
  obtain ⟨config, qs, rfl⟩ := h
  intro x d hd
  obtain ⟨e, -, hcompile⟩ := (find?_run config qs).mp hd
  exact ⟨e, hcompile⟩

theorem Reachable.after (h : s.Reachable) (q : Request) : (s.after q).Reachable := by
  obtain ⟨config, qs, rfl⟩ := h
  exact ⟨config, qs ++ [q], run_concat _ qs q⟩

/-- A line typed at the console is a request, or it is passed over. -/
theorem Reachable.answer (h : s.Reachable) (line : List Char) :
    (Console.answer s line).session.Reachable := by
  unfold Console.answer
  split
  · exact h
  · have hafter := h.after (.executeLine (String.ofList line))
    rw [Session.after, perform, Journaled.outcome_map] at hafter
    cases hout : (s.executeLine (String.ofList line)).outcome <;>
      simpa [hout, Except.map] using hafter

/-- **A conversation leaves behind what it has stored since the last removal, and nothing
else.**  Under each letter is what was last stored there; requests that are refused, requests
that only ask and lines that are no command leave no trace.  So two conversations with the
same definitions left go on in the same way, whatever is asked. -/
theorem run_of_history (config : Config) (qs : List Request) :
    (∀ x, (∃ d, ((new config).run qs).registry.find? x = some d) ↔
      Stored ((new config).log qs) x) ∧
    (∀ x d, ((new config).run qs).registry.find? x = some d ↔
      ∃ e, LastStored ((new config).log qs) x e ∧ Definition.compile x.char e = .ok d) ∧
    (∀ q, ¬ (((new config).run qs).exchange q).Succeeds ∨ q.change? = none →
      (new config).run (qs ++ [q]) = (new config).run qs) ∧
    (∀ line e, Command.parse line = .error e →
      (((new config).run qs).exchange (.executeLine line)).reply = .error e ∧
      (new config).run (qs ++ [.executeLine line]) = (new config).run qs) ∧
    ∀ qs', (∀ x d,
        (∃ e, LastStored ((new config).log qs) x e ∧ Definition.compile x.char e = .ok d) ↔
        ∃ e, LastStored ((new config).log qs') x e ∧ Definition.compile x.char e = .ok d) →
      ∀ later, ((new config).run qs).log later = ((new config).run qs').log later := by
  refine ⟨fun x => exists_find?_run config qs, fun x d => find?_run config qs, ?_, ?_, ?_⟩
  · intro q h
    rw [run_concat, after_eq_self h]
  · intro line e hline
    have hout := perform_executeLine_of_error ((new config).run qs) hline
    obtain ⟨hafter, -⟩ := after_of_error hout
    exact ⟨by rw [exchange, hout]; rfl, (run_concat _ _ _).trans hafter⟩
  · intro qs' hagree later
    have hsame : (new config).run qs = (new config).run qs' := by
      ext x d
      · rw [config_run, config_run]
      · rw [find?_run, hagree x d, ← find?_run]
    rw [hsame]

end

/-- Two functions, of which one is left and keeps its expression. -/
def detour : List Request :=
  [.define 'g' "a", .clear, .define 'f' "b", .define 'f' "b#"]

/-- The function that is left, in one line. -/
def direct : List Request :=
  [.executeLine "!b set f b"]

/-- What was removed and what was refused makes no difference later. -/
theorem run_of_history_detour : Stored ((new {}).log detour) ⟨'f', rfl⟩ ∧
    ¬ Stored ((new {}).log detour) ⟨'g', rfl⟩ ∧
    ∀ later, ((new {}).run detour).log later = ((new {}).run direct).log later := by
  have hsame : (new {}).run detour = (new {}).run direct := rfl
  obtain ⟨hstored, -, -, -, hlater⟩ := run_of_history {} detour
  refine ⟨(hstored _).mp ⟨_, rfl⟩, ?_, hlater direct fun x d => ?_⟩
  · intro h
    obtain ⟨d, hd⟩ := (hstored _).mpr h
    cases hd
  · rw [← find?_run, hsame, find?_run]

end Session

end Switching
