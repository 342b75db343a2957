/-
A resolver at work.

A resolver has one path and one memory.  It lengthens the path before it writes a definition
out and shortens it again afterwards, whether that went well or not; and what it has resolved
through a reference it enters into the memory.  `resolveFrom` is given the path of every call,
so it says nothing about who restores it.  Here the path is a part of what a resolver
changes, and everything that it has ever held is kept: its *course*.

The first theorem is that this is the same resolver.  The rest is an invariant of the moments
of a course.  All changes are made by four operations, and there is one lemma for each of
them.  Only two have conditions.  A name is put on the path if it is not there and, below the
definition that was asked for, if it is stored; this bounds the path by the registry.  And a
function is remembered if it is not known yet, although it was looked up long before: while it
was written out its name stood on the path, and no memory gains a name that waits.
-/
import Switching.Proofs.Listing
import Switching.Proofs.Reuse

namespace Switching.Resolver

/-- What a resolver holds at one moment. -/
structure Moment where
  /-- The names whose resolution waits for another. -/
  path : List Letter
  /-- What is remembered. -/
  memory : Memory

/-- A resolver in use. -/
structure Course where
  /-- What it holds now. -/
  now : Moment
  /-- What it held before, last first. -/
  past : List Moment
  /-- The functions written out through a reference, one entry for each time, last first. -/
  expanded : List Letter

/-! ### The changes -/

namespace Course

/-- A resolver that has not been used. -/
instance : EmptyCollection Course where
  emptyCollection := ⟨⟨[], ∅⟩, [], []⟩

/-- All moments so far, last first. -/
def moments (c : Course) : List Moment :=
  c.now :: c.past

/-- The course goes on to the next moment. -/
def goOn (c : Course) (next : Moment) : Course :=
  { c with now := next, past := c.moments }

/-- Puts a name at the end of the path. -/
def enter (c : Course) (name : Letter) : Course :=
  c.goOn { c.now with path := c.now.path ++ [name] }

/-- Takes the last name off the path. -/
def leave (c : Course) : Course :=
  c.goOn { c.now with path := c.now.path.dropLast }

/-- Notes that a definition has been written out. -/
def note (c : Course) (d : Definition) : Course :=
  c.goOn { c.now with memory := c.now.memory.note d }

/-- Remembers a function that has been written out through a reference. -/
def remember (c : Course) (name : Letter) (d : Definition) : Course :=
  { c.goOn { c.now with memory := c.now.memory.remember name d } with
    expanded := name :: c.expanded }

/-- A course that has come back to the path that `c` is on. -/
def Back (c : Course) : Type :=
  { c' : Course // c'.now.path = c.now.path }

namespace Back

variable {c : Course} {name : Letter}

/-- Nothing has happened. -/
def stay (c : Course) : c.Back :=
  ⟨c, rfl⟩

/-- One way and back, and then another. -/
def followed (b : c.Back) (b' : b.val.Back) : c.Back :=
  ⟨b'.val, b'.property.trans b.property⟩

/-- The name that was put on the path is taken off again. -/
def left (b : (c.enter name).Back) : c.Back :=
  ⟨b.val.leave, (congrArg List.dropLast b.property).trans List.dropLast_concat⟩

/-- A definition is noted on the way. -/
def noted (b : c.Back) (d : Definition) : c.Back :=
  ⟨b.val.note d, b.property⟩

/-- A function is remembered on the way. -/
def remembered (b : c.Back) (name : Letter) (d : Definition) : c.Back :=
  ⟨b.val.remember name d, b.property⟩

end Back

end Course

/-! ### Resolution with its path -/

mutual

/-- Resolves `d` where the course stands. -/
def resolveOn (r : Resolver) (d : Definition) (c : Course) : Except Error Definition × c.Back :=
  if d.isResolved then (.ok d, .stay c)
  else if d.name ∈ c.now.path then
    (.error (.cyclicReference (c.now.path ++ [d.name])), .stay c)
  else
    match inlineAllOn r d d.nested.letters (c.enter d.name) with
    | (.error e, b) => (.error e, b.left)
    | (.ok whole, b) =>
      let done := { whole with nested := ∅ }
      (.ok done, (b.noted done).left)
termination_by (unvisited c.now.path, 0, 0)
decreasing_by exact Prod.Lex.left _ _ (unvisited_append_lt ‹_›)

/-- Puts the resolved statements of the functions `targets` into `d`. -/
def inlineAllOn (r : Resolver) (d : Definition) (targets : List Letter) (c : Course) :
    Except Error Definition × c.Back :=
  match targets with
  | [] => (.ok d, .stay c)
  | target :: targets =>
    match fetchOn r d.name target c with
    | (.error e, b) => (.error e, b)
    | (.ok body, b) =>
      match d.inline r.limit target body with
      | .error e => (.error e, b)
      | .ok d =>
        let rest := inlineAllOn r d targets b.val
        (rest.1, b.followed rest.2)
termination_by (unvisited c.now.path, 2, targets.length)
decreasing_by
  · exact Prod.Lex.right _ (Prod.Lex.left _ _ (by decide))
  · rw [b.property]
    exact Prod.Lex.right _ (Prod.Lex.right _ (Nat.lt_succ_self _))

/-- The resolved function `target` to which `function` refers. -/
def fetchOn (r : Resolver) (function target : Letter) (c : Course) :
    Except Error Definition × c.Back :=
  match c.now.memory.find? target with
  | some done => (.ok done, .stay c)
  | none =>
    match r.registry.find? target with
    | none => (.error (.missingNestedFunction function target), .stay c)
    | some stored =>
      match resolveOn r stored c with
      | (.error e, b) => (.error e, b)
      | (.ok done, b) => (.ok done, b.remembered target done)
termination_by (unvisited c.now.path, 1, 0)
decreasing_by exact Prod.Lex.right _ (Prod.Lex.left _ _ (by decide))

end

/-- What a call answers and what it leaves in the memory. -/
def answered {c : Course} (out : Except Error Definition × c.Back) :
    Except Error Definition × Memory :=
  (out.1, out.2.val.now.memory)

variable {r : Resolver} {d : Definition} {f name : Letter} {c : Course} {m : Memory}
  {path : List Letter}

/-- **The resolver with a course is the resolver**, whatever path a call finds. -/
theorem answered_eq (r : Resolver) :
    (∀ d c, answered (r.resolveOn d c) = r.resolveFrom c.now.path d c.now.memory) ∧
    (∀ d targets c,
      answered (r.inlineAllOn d targets c) = r.inlineAll c.now.path d targets c.now.memory) ∧
    (∀ g f c, answered (r.fetchOn g f c) = r.fetch c.now.path g f c.now.memory) := by
  refine resolveOn.mutual_induct r _ _ _ ?resolved ?cyclic ?refused ?done ?nil ?unfetched
    ?large ?inlined ?known ?missing ?failed ?fetched
  case resolved =>
    intro d c hres
    rw [resolveOn, if_pos hres, resolveFrom_of_isResolved hres]
    rfl
  case cyclic =>
    intro d c hres hcyc
    rw [resolveOn, if_neg hres, if_pos hcyc, resolveFrom_of_mem_path hres hcyc]
    rfl
  case refused =>
    intro d c hres hcyc e b hrun ih
    have hsame : r.inlineAll (c.now.path ++ [d.name]) d d.nested.letters c.now.memory =
        (.error e, b.val.now.memory) := by
      rw [hrun] at ih
      exact ih.symm
    rw [resolveOn, if_neg hres, if_neg hcyc, hrun, resolveFrom_of_refused hres hcyc hsame]
    rfl
  case done =>
    intro d c hres hcyc whole b hrun ih
    have hsame : r.inlineAll (c.now.path ++ [d.name]) d d.nested.letters c.now.memory =
        (.ok whole, b.val.now.memory) := by
      rw [hrun] at ih
      exact ih.symm
    rw [resolveOn, if_neg hres, if_neg hcyc, hrun, resolveFrom_of_done hres hcyc hsame]
    rfl
  case nil =>
    intro d c
    rw [inlineAllOn, inlineAll_nil]
    rfl
  case unfetched =>
    intro d c f targets e b hrun ih
    rw [hrun] at ih
    rw [inlineAllOn, hrun, inlineAll_of_unfetched ih.symm]
    rfl
  case large =>
    intro d c f targets body b hrun e hstep ih
    rw [hrun] at ih
    simp only [inlineAllOn, hrun, hstep, inlineAll_of_large ih.symm hstep]
    rfl
  case inlined =>
    intro d c f targets body b hrun d' hstep ih ihrest
    rw [hrun] at ih
    rw [b.property] at ihrest
    simp only [inlineAllOn, hrun, hstep, inlineAll_of_inlined ih.symm hstep]
    exact ihrest
  case known =>
    intro g f c done hknown
    rw [fetchOn, hknown, fetch_of_known hknown]
    rfl
  case missing =>
    intro g f c hunknown hmissing
    simp only [fetchOn, hunknown, hmissing, fetch_of_missing hunknown hmissing]
    rfl
  case failed =>
    intro g f c hunknown stored hstored e b hrun ih
    rw [hrun] at ih
    simp only [fetchOn, hunknown, hstored, hrun, fetch_of_failed hunknown hstored ih.symm]
    rfl
  case fetched =>
    intro g f c hunknown stored hstored done b hrun ih
    rw [hrun] at ih
    simp only [fetchOn, hunknown, hstored, hrun, fetch_of_fetched hunknown hstored ih.symm]
    rfl

/-! ### What every moment keeps -/

/-- What holds of a resolver at every moment. -/
structure Moment.Sound (r : Resolver) (m : Moment) : Prop where
  /-- No name waits for itself. -/
  nodup : m.path.Nodup
  /-- Below the definition that was asked for all who wait are stored. -/
  stored : ∀ l ∈ m.path.tail, l ∈ r.registry.names
  /-- What is remembered is what its name comes to. -/
  recalls : r.Recalls m.memory
  /-- Nothing is remembered twice. -/
  once : (m.memory.known.map Prod.fst).Nodup

/-- The path has at most one name that is not stored. -/
theorem Moment.Sound.length_path_le {m : Moment} (hr : r.registry.Compiled) (h : m.Sound r) :
    m.path.length ≤ r.registry.size + 1 := by
  have htail : m.path.tail.Nodup := h.nodup.sublist (List.tail_sublist _)
  have hle : m.path.tail.length ≤ r.registry.names.length :=
    (List.subperm_of_subset htail h.stored).length_le
  rw [← Registry.map_name_toList hr, List.length_map, List.length_tail] at hle
  unfold Registry.size
  omega

/-- All moments so far are sound, and what was written out through a reference is remembered. -/
structure Course.Sound (r : Resolver) (c : Course) : Prop where
  /-- No moment is an exception. -/
  moments : ∀ m ∈ c.moments, m.Sound r
  /-- The log of what was written out agrees with the memory. -/
  expanded : c.expanded = c.now.memory.known.map Prod.fst

namespace Course

theorem sound_empty : (∅ : Course).Sound r := by
  refine ⟨fun m hm => ?_, rfl⟩
  rw [List.mem_singleton.mp hm]
  exact ⟨List.nodup_nil, fun l hl => absurd hl List.not_mem_nil, recalls_empty, List.nodup_nil⟩

theorem Sound.now (h : c.Sound r) : c.now.Sound r :=
  h.moments _ (List.mem_cons_self ..)

theorem Sound.goOn {next : Moment} (h : c.Sound r) (hnext : next.Sound r)
    (hknown : next.memory.known = c.now.memory.known) : (c.goOn next).Sound r where
  moments := List.forall_mem_cons.mpr ⟨hnext, h.moments⟩
  expanded := h.expanded.trans (congrArg _ hknown.symm)

/-- The first name on a path is the one that may not be stored. -/
theorem mem_tail_concat {l : Letter} (h : l ∈ (path ++ [name]).tail) :
    l ∈ path.tail ∨ path ≠ [] ∧ l = name := by
  cases path with
  | nil => cases h
  | cons k path => simpa using h

theorem Sound.enter (h : c.Sound r) (hnew : name ∉ c.now.path)
    (hname : c.now.path = [] ∨ name ∈ r.registry.names) : (c.enter name).Sound r := by
  refine h.goOn ⟨?_, ?_, h.now.recalls, h.now.once⟩ rfl
  · exact List.nodup_append.mpr ⟨h.now.nodup, List.nodup_cons.mpr (by simp), by grind⟩
  · intro l hl
    rcases mem_tail_concat hl with hold | ⟨hwaits, rfl⟩
    · exact h.now.stored l hold
    · exact hname.resolve_left hwaits

theorem Sound.leave (h : c.Sound r) : c.leave.Sound r := by
  refine h.goOn ⟨?_, ?_, h.now.recalls, h.now.once⟩ rfl
  · exact h.now.nodup.sublist (List.dropLast_sublist _)
  · intro l hl
    exact h.now.stored l (((List.dropLast_sublist _).tail).subset hl)

theorem Sound.note (h : c.Sound r) (d : Definition) : (c.note d).Sound r :=
  h.goOn ⟨h.now.nodup, h.now.stored, h.now.recalls, h.now.once⟩ rfl

theorem Sound.remember (h : c.Sound r) (hnew : c.now.memory.find? f = none)
    (hd : r.ResolvesTo f d) : (c.remember f d).Sound r := by
  have hfresh : f ∉ c.now.memory.known.map Prod.fst := by
    intro hf
    obtain ⟨entry, hentry, rfl⟩ := List.mem_map.mp hf
    simpa using List.lookup_eq_none_iff.mp hnew entry hentry
  refine ⟨List.forall_mem_cons.mpr ⟨⟨h.now.nodup, h.now.stored, ?_, ?_⟩, h.moments⟩, ?_⟩
  · exact h.now.recalls.remember hd
  · exact List.nodup_cons.mpr ⟨hfresh, h.now.once⟩
  · exact congrArg (f :: ·) h.expanded

end Course

/-- No memory gains a name whose function is written out. -/
theorem skips_of_skips_self (hr : r.registry.Compiled) (hd : r.registry.find? f = some d)
    (h : r.Skips f (r.resolveFrom path d m).2) : r.Skips f m := by
  have hname : d.name = f := hr.name_eq hd
  by_cases hres : d.isResolved = true
  · rwa [resolveFrom_of_isResolved hres] at h
  by_cases hcyc : d.name ∈ path
  · rw [hname] at hcyc
    exact (skips_of_skips hr).1 path d m hcyc h
  · have hwaits : f ∈ path ++ [d.name] := by
      rw [hname]
      exact List.mem_append_right _ (List.mem_singleton_self f)
    have hloop := (skips_of_skips hr).2.1 (path ++ [d.name]) d d.nested.letters m hwaits
    cases hrun : r.inlineAll (path ++ [d.name]) d d.nested.letters m with
    | mk out m' =>
        rw [hrun] at hloop
        cases out with
        | error e =>
            rw [resolveFrom_of_refused hres hcyc hrun] at h
            exact hloop h
        | ok whole =>
            rw [resolveFrom_of_done hres hcyc hrun] at h
            exact hloop h

/-- While a function is written out, nothing is remembered under its name. -/
theorem find?_resolveFrom_self (hr : r.registry.Compiled) (hd : r.registry.find? f = some d)
    (hnew : m.find? f = none) : (r.resolveFrom path d m).2.find? f = none := by
  by_cases hres : d.isResolved = true
  · rw [resolveFrom_of_isResolved hres]
    exact hnew
  · cases hfind : (r.resolveFrom path d m).2.find? f with
    | none => rfl
    | some d' =>
        have hskips : r.Skips f m :=
          skips_of_skips_self hr hd ⟨⟨d', hfind⟩, d, hd, by simpa using hres⟩
        exact absurd hskips.1 (Memory.not_known_of_eq_none hnew)

theorem name_mem_names (hr : r.registry.Compiled) (hd : r.registry.find? f = some d) :
    d.name ∈ r.registry.names :=
  Registry.mem_names.mpr ⟨d, by rwa [hr.name_eq hd]⟩

/-- **What a call does keeps all moments sound.** -/
theorem sound_resolveOn (hr : r.registry.Compiled) :
    (∀ (d : Definition) c, (c.now.path = [] ∨ d.name ∈ r.registry.names) → c.Sound r →
      (r.resolveOn d c).2.val.Sound r) ∧
    (∀ d targets c, c.Sound r → (r.inlineAllOn d targets c).2.val.Sound r) ∧
    (∀ g f c, c.Sound r → (r.fetchOn g f c).2.val.Sound r) := by
  refine resolveOn.mutual_induct r _ _ _ ?resolved ?cyclic ?refused ?done ?nil ?unfetched
    ?large ?inlined ?known ?missing ?failed ?fetched
  case resolved =>
    intro d c hres _ hc
    rwa [resolveOn, if_pos hres]
  case cyclic =>
    intro d c hres hcyc _ hc
    rwa [resolveOn, if_neg hres, if_pos hcyc]
  case refused =>
    intro d c hres hcyc e b hrun ih hname hc
    rw [hrun] at ih
    rw [resolveOn, if_neg hres, if_neg hcyc, hrun]
    exact (ih (hc.enter hcyc hname)).leave
  case done =>
    intro d c hres hcyc whole b hrun ih hname hc
    rw [hrun] at ih
    rw [resolveOn, if_neg hres, if_neg hcyc, hrun]
    exact ((ih (hc.enter hcyc hname)).note _).leave
  case nil =>
    intro d c hc
    rwa [inlineAllOn]
  case unfetched =>
    intro d c f targets e b hrun ih hc
    rw [hrun] at ih
    rw [inlineAllOn, hrun]
    exact ih hc
  case large =>
    intro d c f targets body b hrun e hstep ih hc
    rw [hrun] at ih
    simp only [inlineAllOn, hrun, hstep]
    exact ih hc
  case inlined =>
    intro d c f targets body b hrun d' hstep ih ihrest hc
    rw [hrun] at ih
    simp only [inlineAllOn, hrun, hstep]
    exact ihrest (ih hc)
  case known =>
    intro g f c done hknown hc
    rwa [fetchOn, hknown]
  case missing =>
    intro g f c hunknown hmissing hc
    simp only [fetchOn, hunknown, hmissing]
    exact hc
  case failed =>
    intro g f c hunknown stored hstored e b hrun ih hc
    rw [hrun] at ih
    simp only [fetchOn, hunknown, hstored, hrun]
    exact ih (.inr (name_mem_names hr hstored)) hc
  case fetched =>
    intro g f c hunknown stored hstored done b hrun ih hc
    have hsame := (answered_eq r).1 stored c
    have hdone := ((yields hr).1 c.now.path stored c.now.memory (hr.listed hstored)
      hc.now.recalls).1
    have hnew : (r.resolveFrom c.now.path stored c.now.memory).2.find? f = none :=
      find?_resolveFrom_self hr hstored hunknown
    rw [hrun] at ih hsame
    rw [← hsame] at hdone hnew
    simp only [fetchOn, hunknown, hstored, hrun]
    exact (ih (.inr (name_mem_names hr hstored)) hc).remember hnew
      ⟨stored, hstored, hdone done rfl⟩

/-! ### Many requests -/

/-- A course through a number of requests, granted or refused. -/
def serve (r : Resolver) (requests : List Definition) (c : Course) : Course :=
  requests.foldl (fun c d => (r.resolveOn d c).2.val) c

theorem path_serve (requests : List Definition) (c : Course) :
    (r.serve requests c).now.path = c.now.path := by
  induction requests generalizing c with
  | nil => rfl
  | cons d requests ih => exact (ih _).trans (r.resolveOn d c).2.property

theorem Course.Sound.serve (hr : r.registry.Compiled) (requests : List Definition)
    (h : c.Sound r) (hpath : c.now.path = []) : (r.serve requests c).Sound r := by
  induction requests generalizing c with
  | nil => exact h
  | cons d requests ih =>
      exact ih ((sound_resolveOn hr).1 d c (.inl hpath) h)
        ((r.resolveOn d c).2.property.trans hpath)

/-- **A resolver stays sound, whatever it is asked for.**  The path of a call is restored, at
every moment it names nobody twice and only one who may not be stored, what is remembered is
the full expansion of the function stored under its name, and no function is written out
through a reference more than once. -/
theorem serve_sound (hr : r.registry.Compiled) (requests : List Definition) :
    (∀ d c, ((r.resolveOn d c).1, (r.resolveOn d c).2.val.now.memory) =
      r.resolveFrom c.now.path d c.now.memory) ∧
    (∀ d c, (r.resolveOn d c).2.val.now.path = c.now.path) ∧
    (r.serve requests ∅).now.path = [] ∧
    (∀ m ∈ (r.serve requests ∅).moments,
      m.path.Nodup ∧ m.path.length ≤ r.registry.size + 1 ∧
      ∀ f d', m.memory.find? f = some d' →
        ∃ d s, r.registry.find? f = some d ∧ r.registry.Expands d s ∧
          d'.statement = s ∧ d'.vars = s.vars ∧ d'.statement.hasReferences = false) ∧
    (r.serve requests ∅).now.memory.known.map Prod.fst = (r.serve requests ∅).expanded ∧
    (r.serve requests ∅).expanded.Nodup := by
  have hsound : (r.serve requests ∅).Sound r := Course.sound_empty.serve hr requests rfl
  refine ⟨(answered_eq r).1, fun d c => (r.resolveOn d c).2.property, path_serve requests ∅,
    fun m hm => ?_, hsound.expanded.symm, ?_⟩
  · have hm := hsound.moments m hm
    refine ⟨hm.nodup, hm.length_path_le hr, fun f d' hf => ?_⟩
    obtain ⟨d, hd, s, hs, -, rfl⟩ := hm.recalls f d' hf
    exact ⟨d, s, hd, hs, rfl, rfl, Statement.hasReferences_eq_false_iff.mpr hs.ref_not_mem⟩
  · rw [hsound.expanded]
    exact hsound.now.once

/-- Three requests, two of them for definitions that are not stored, with two functions to refer
to. -/
theorem serve_sound_twice :
    twice.Compiled ∧
    (serve ⟨twice, 16⟩ [Session.bystander, usurper, outer] ∅).now.path = [] ∧
    (∀ m ∈ (serve ⟨twice, 16⟩ [Session.bystander, usurper, outer] ∅).moments,
      m.path.Nodup ∧ m.path.length ≤ 3) ∧
    (serve ⟨twice, 16⟩ [Session.bystander, usurper, outer] ∅).expanded.Nodup := by
  obtain ⟨-, -, hpath, hmoments, -, honce⟩ :=
    serve_sound (r := ⟨twice, 16⟩) compiled_twice [Session.bystander, usurper, outer]
  have hsize : twice.size = 2 := by decide +kernel
  refine ⟨compiled_twice, hpath, fun m hm => ?_, honce⟩
  obtain ⟨hnodup, hlength, -⟩ := hmoments m hm
  exact ⟨hnodup, hlength.trans (by rw [hsize])⟩

end Switching.Resolver
