/-
Limits only refuse.

A configuration has three limits: the variables of a table, the tokens of a statement that is
written out, and the characters of a page.  The first two can turn an answer into a refusal
and do nothing else; the third decides where an answer is cut and does nothing else.  So a
session with higher limits gives every answer that one with lower limits gives.

The functions stored have no part in it, because no limit applies to storing.  That is why
two sessions that are asked the same things hold the same functions at every moment, also
after one of them has refused what the other has answered.  All the rest is a comparison of
single answers: an expansion of an allowed size is of an allowed size under a higher limit,
and a table that is not too large is not too large either.
-/
import Switching.Proofs.Replies

namespace Switching

/-- No limit of the first configuration is above that of the second, and both write out the
same. -/
structure Config.Within (c c' : Config) : Prop where
  /-- The second takes tables of as many variables. -/
  vars : c.maxTableVars ≤ c'.maxTableVars
  /-- The second takes statements of as many tokens. -/
  tokens : c.maxStatementTokens ≤ c'.maxStatementTokens
  /-- The second has room for as much on a page. -/
  page : c.messageLimit ≤ c'.messageLimit
  /-- A view is written out by both or by none. -/
  expand_eq : c.expandByDefault = c'.expandByDefault

/-! ### Resolving and tabulating -/

section

variable {r : Registry} {low high : Nat} {l : Letter} {c : Char} {d d' : Definition}
  {names : List Char} {t : TruthTable} {max max' : Nat}

/-- **What is resolved within a limit is resolved within a higher one**, and comes to the
same. -/
theorem Resolver.Resolves.raise (h : Resolver.Resolves ⟨r, low⟩ d d') (hle : low ≤ high) :
    Resolver.Resolves ⟨r, high⟩ d d' := by
  obtain ⟨s, hs, hsize, rfl⟩ := h
  refine ⟨s, hs, hsize.imp_right fun hall => ?_, rfl⟩
  exact Nat.le_trans hall hle

theorem Resolver.alone_raise (hr : r.Compiled) (h : alone ⟨r, low⟩ c = .ok d) (hle : low ≤ high) :
    alone ⟨r, high⟩ c = .ok d := by
  obtain ⟨stored, hd, hres⟩ := alone_eq_ok_iff.mp h
  have hstored := hr.find?_of_lookup hd
  have hraised := ((resolve_eq_ok_iff hr hstored recalls_empty).mp hres).raise hle
  exact alone_eq_ok_iff.mpr ⟨stored, hd, (resolve_eq_ok_iff hr hstored recalls_empty).mpr hraised⟩

/-- **A table within two limits is the table within two higher ones.** -/
theorem TruthTable.ofNames_raise (hr : r.Compiled)
    (h : (ofNames ⟨r, low⟩ (some max) names).outcome = .ok t) (hle : low ≤ high)
    (hmax : max ≤ max') : (ofNames ⟨r, high⟩ (some max') names).outcome = .ok t := by
  refine (outcome_eq_iff hr).mpr ?_
  cases (outcome_eq_iff hr).mp h with
  | listed resolved shared union fits read =>
      refine .listed (resolved.imp fun _ _ hd => Resolver.alone_raise hr hd hle) shared union
        (fun m hm => ?_) read
      rw [← Option.some.inj hm]
      exact Nat.le_trans (fits max rfl) hmax

end

/-! ### Answering -/

namespace Session

/-- Two sessions with the same functions, of which the second has no lower limits. -/
structure Raised (s s' : Session) : Prop where
  /-- The limits of the first are within those of the second. -/
  within : s.config.Within s'.config
  /-- The functions are the same. -/
  registry_eq : s.registry = s'.registry

section

variable {s s' : Session} {command : Command} {c : Char} {d : Definition} {text : String}
  {q : Request}

namespace Raised

theorem alone (h : s.Raised s') (hr : s.registry.Compiled) (hd : s.resolver.alone c = .ok d) :
    s'.resolver.alone c = .ok d := by
  rw [resolver, ← h.registry_eq]
  exact Resolver.alone_raise hr hd h.within.tokens

theorem truthTable {targets : List Char} {t : TruthTable} (h : s.Raised s')
    (hr : s.registry.Compiled) (ht : (s.truthTable targets).outcome = .ok t) :
    (s'.truthTable targets).outcome = .ok t := by
  rw [Session.truthTable, resolver, ← h.registry_eq]
  exact TruthTable.ofNames_raise hr ht h.within.tokens h.within.vars

/-- A map is not limited by itself, and depends on what its function is resolved to. -/
theorem karnaughMap {map : KarnaughMap} (h : s.Raised s') (hr : s.registry.Compiled)
    (hmap : (s.karnaughMap c).outcome = .ok map) : (s'.karnaughMap c).outcome = .ok map := by
  rw [karnaughMap_outcome] at hmap ⊢
  cases hd : s.resolver.alone c with
  | error e =>
      rw [hd] at hmap
      cases hmap
  | ok d =>
      rw [hd] at hmap
      rw [h.alone hr hd]
      exact hmap

theorem view {target : ViewTarget} {expand : Bool} (h : s.Raised s') (hr : s.registry.Compiled)
    (htext : (s.view target expand).outcome = .ok text) :
    (s'.view target expand).outcome = .ok text := by
  cases target with
  | all =>
      rw [← htext]
      exact congrArg Except.ok (by rw [listing_eq, listing_eq, h.registry_eq])
  | function c =>
      rw [view_function_outcome] at htext ⊢
      obtain ⟨d, hd, rfl⟩ := exists_of_map_eq_ok htext
      cases expand with
      | true =>
          rw [if_pos rfl] at hd ⊢
          rw [h.alone hr hd, Except.map]
      | false =>
          rw [if_neg Bool.false_ne_true] at hd ⊢
          rw [← h.registry_eq, hd, Except.map]

/-- **A text that is shown is shown under higher limits too.** -/
theorem shown? (h : s.Raised s') (hr : s.registry.Compiled)
    (htext : s.shown? command = some (.ok text)) : s'.shown? command = some (.ok text) := by
  cases command with
  | set | clear => cases htext
  | view target expand =>
      rw [Session.shown?, Option.some.injEq] at htext ⊢
      rw [← h.within.expand_eq]
      exact h.view hr htext
  | table targets =>
      rw [Session.shown?, table_outcome, Option.some.injEq] at htext ⊢
      obtain ⟨t, ht, rfl⟩ := exists_of_map_eq_ok htext
      rw [h.truthTable hr ht, Except.map]
  | kmap c =>
      rw [Session.shown?, kmap_outcome, Option.some.injEq] at htext ⊢
      obtain ⟨map, hmap, rfl⟩ := exists_of_map_eq_ok htext
      rw [h.karnaughMap hr hmap, Except.map]

/-! ### Changing -/

/-- No limit applies to a change: both sessions make it, or neither. -/
theorem changed (h : s.Raised s') (ch : Change) :
    (∃ next next', s.changed ch = .ok next ∧ s'.changed ch = .ok next' ∧ next.Raised next') ∨
      ∃ e, s.changed ch = .error e ∧ s'.changed ch = .error e := by
  cases ch with
  | removeAll => exact .inl ⟨_, _, rfl, rfl, ⟨h.within, rfl⟩⟩
  | store name expression =>
      simp only [Session.changed]
      cases Definition.compile name expression with
      | error e => exact .inr ⟨e, rfl, rfl⟩
      | ok d => exact .inl ⟨_, _, rfl, rfl, ⟨h.within, congrArg (·.define d) h.registry_eq⟩⟩

/-- **After a request of any kind the functions are still the same**, whichever of the two
sessions has refused it. -/
theorem after (h : s.Raised s') (q : Request) : (s.after q).Raised (s'.after q) := by
  cases hch : q.change? with
  | none => rwa [after_eq_self (.inr hch), after_eq_self (.inr hch)]
  | some ch =>
      rw [after_of_change s hch, after_of_change s' hch]
      rcases h.changed ch with ⟨next, next', hnext, hnext', hraised⟩ | ⟨e, he, he'⟩
      · rwa [hnext, hnext']
      · rwa [he, he']

theorem run (h : s.Raised s') (qs : List Request) : (s.run qs).Raised (s'.run qs) := by
  induction qs generalizing s s' with
  | nil => exact h
  | cons q qs ih => exact ih (h.after q)

/-- **What is carried out is carried out under higher limits too**, with the same reply, which
may be cut otherwise. -/
theorem execute {next : Session} {pages : List String} (h : s.Raised s')
    (hr : s.registry.Compiled) (hout : (s.execute command).outcome = .ok (next, pages)) :
    ∃ next' pages', (s'.execute command).outcome = .ok (next', pages') ∧ next.Raised next' ∧
      Text.stacked pages' = Text.stacked pages := by
  cases hch : command.change? with
  | some ch =>
      rw [execute_of_change s hch] at hout
      rw [execute_of_change s' hch]
      rcases h.changed ch with ⟨next, next', hnext, hnext', hraised⟩ | ⟨e, he, -⟩
      · rw [hnext] at hout
        cases hout
        exact ⟨next', [], by rw [hnext', Except.map], hraised, rfl⟩
      · rw [he] at hout
        cases hout
  | none =>
      obtain ⟨out, hshown⟩ := s.exists_shown? hch
      rw [execute_of_shown? hshown] at hout
      obtain ⟨text, rfl, hpages⟩ := exists_of_map_eq_ok hout
      cases hpages
      have hlined := lined_of_shown? hr hshown
      refine ⟨s', s'.pages text, ?_, h, ?_⟩
      · rw [execute_of_shown? (h.shown? hr hshown), Except.map]
      · rw [Session.pages, Session.pages, hlined.stacked_paginate, hlined.stacked_paginate]

theorem executeLine {line : String} {next : Session} {pages : List String} (h : s.Raised s')
    (hr : s.registry.Compiled) (hout : (s.executeLine line).outcome = .ok (next, pages)) :
    ∃ next' pages', (s'.executeLine line).outcome = .ok (next', pages') ∧ next.Raised next' ∧
      Text.stacked pages' = Text.stacked pages := by
  cases hline : Command.parse line with
  | error e =>
      rw [executeLine_outcome_of_error s hline] at hout
      cases hout
  | ok command =>
      rw [executeLine_outcome s hline] at hout
      rw [executeLine_outcome s' hline]
      exact h.execute hr hout

end Raised

/-- A new session after lines carried out or refused one after another. -/
def afterLines (config : Config) (lines : List String) : Session :=
  (new config).run (lines.map .executeLine)

/-- **Higher limits never change an answer.**  Of two sessions that are given the same lines,
the one with the higher limits holds the same functions after each of them, and carries out
all that the other carries out, with the same text for a reply. -/
theorem answers_raise {config config' : Config} (h : config.Within config')
    (lines : List String) :
    (afterLines config lines).registry = (afterLines config' lines).registry ∧
    ∀ line next pages, ((afterLines config lines).executeLine line).outcome = .ok (next, pages) →
      ∃ next' pages', ((afterLines config' lines).executeLine line).outcome =
          .ok (next', pages') ∧
        next'.registry = next.registry ∧ Text.stacked pages' = Text.stacked pages := by
  have hnew : (new config).Raised (new config') := ⟨h, rfl⟩
  have hraised : (afterLines config lines).Raised (afterLines config' lines) :=
    hnew.run (lines.map .executeLine)
  have hreach : (afterLines config lines).Reachable := ⟨config, _, rfl⟩
  refine ⟨hraised.registry_eq, fun line next pages hout => ?_⟩
  obtain ⟨next', pages', hout', hnext, hpages⟩ := hraised.executeLine hreach.compiled hout
  exact ⟨next', pages', hout', hnext.registry_eq.symm, hpages⟩

/-- A configuration for tables of one variable and pages of twelve characters. -/
def narrow : Config :=
  { maxTableVars := 1, maxStatementTokens := 1, messageLimit := 12 }

/-- What is to be shown of the function `g = ab`, line by line. -/
def shownLines : List String :=
  ["Displaying information at g", " Expression -> ab", " Statement  -> a and b",
    " Variables  -> a, b", " Functions  -> "]

/-- What is sent in five pages under the narrow limits is the same text without them. -/
theorem answers_raise_narrow : narrow.Within {} ∧
    (∃ next, ((afterLines narrow ["set g ab"]).executeLine "view g").outcome =
      .ok (next, shownLines)) ∧
    ∃ next pages,
      ((afterLines {} ["set g ab"]).executeLine "view g").outcome = .ok (next, pages) ∧
        Text.stacked pages = Text.stacked shownLines := by
  have hwithin : narrow.Within {} := ⟨by decide, by decide, by decide, rfl⟩
  have hline : Command.parse "view g" = .ok (.view (.function 'g') false) := rfl
  have hshown : (afterLines narrow ["set g ab"]).shown? (.view (.function 'g') false) =
      some (.ok (Text.stacked shownLines)) := rfl
  have hpages : (afterLines narrow ["set g ab"]).pages (Text.stacked shownLines) =
      shownLines := by decide +kernel
  have hnarrow : ∃ next, ((afterLines narrow ["set g ab"]).executeLine "view g").outcome =
      .ok (next, shownLines) :=
    ⟨_, by rw [executeLine_outcome _ hline, execute_of_shown? hshown, Except.map, hpages]⟩
  obtain ⟨next, hout⟩ := hnarrow
  obtain ⟨next', pages', hout', -, hpages'⟩ :=
    (answers_raise hwithin ["set g ab"]).2 "view g" next _ hout
  exact ⟨hwithin, ⟨next, hout⟩, next', pages', hout', hpages'⟩

end

end Session

end Switching
