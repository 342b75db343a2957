/-
What is remembered changes nothing.

One memory serves all the targets of a table, and within one request it serves every
reference.  `Switching.Proofs.Resolution` says that nothing wrong comes out of it.  Here
it is shown that nothing else comes out either: a request is answered, or refused for the
same reason down to the path of the cycle and the size of the statement, as if nothing
were remembered.

A look into the memory skips a resolution, so what has to be shown is that the one
skipped would have succeeded.  It could fail on a cycle only, through a name that waits
for it.  But those who wait lead on to the name that is looked up, so such a cycle would
be one of that name, and what has been resolved once lies on none.  The rest is an
induction along the resolver, in which two memories are carried side by side.

The two runs need not be of one registry.  What is put in for a reference is a statement,
and it comes with its variables; a function may be stored differently in the other registry
if it is resolved to the same there.  So a second resolver is carried along with the second
memory, and `Agrees` says what the two must have in common.
-/
import Switching.Proofs.Resolution

namespace Switching

section

variable {α β ε : Type} {run : Except ε α} {k : α → β}

theorem exists_of_map_eq_ok {b : β} (h : run.map k = .ok b) : ∃ a, run = .ok a ∧ k a = b := by
  cases run with
  | error e => cases h
  | ok a => exact ⟨a, rfl, Except.ok.inj h⟩

theorem eq_error_of_map_eq_error {e : ε} (h : run.map k = .error e) : run = .error e := by
  cases run with
  | error e' => exact congrArg Except.error (Except.error.inj h)
  | ok a => cases h

end

/-- What is put in for a reference: the statement, and the variables that come with it. -/
def Definition.gist (d : Definition) : Statement × LetterSet :=
  (d.statement, d.vars)

/-- Nothing else of the definition that is put in makes a difference. -/
theorem Definition.inline_of_gist {b b' : Definition} (h : b'.gist = b.gist) (d : Definition)
    (limit : Nat) (f : Letter) : d.inline limit f b' = d.inline limit f b := by
  obtain ⟨hstatement, hvars⟩ := Prod.mk.inj h
  rw [inline, inline, hstatement, hvars]

namespace Resolver

section

variable {r r' : Resolver} {d d' : Definition} {f g l : Letter} {m m' : Memory}
  {path : List Letter}

/-- All who wait lead on to `l`. -/
def Leads (r : Resolver) (path : List Letter) (l : Letter) : Prop :=
  ∀ p ∈ path, r.registry.Reaches p l

theorem Leads.step (h : r.Leads path l) (hlf : r.registry.Reaches l f) :
    r.Leads (path ++ [l]) f := by
  intro p hp
  rcases List.mem_append.mp hp with hp | hp
  · exact (h p hp).trans hlf
  · rw [List.mem_singleton.mp hp]
    exact hlf

/-- Who leads on to a name on no cycle is not reached from it. -/
theorem Leads.not_reaches (h : r.Leads path l) (hself : ¬ r.registry.Reaches l l) :
    ∀ p ∈ path, p ≠ l ∧ ¬ r.registry.Reaches l p := by
  intro p hp
  constructor
  · rintro rfl
    exact hself (h p hp)
  · intro hlp
    exact hself (hlp.trans (h p hp))

/-- What has been resolved once is resolved again, whoever waits for it. -/
theorem ResolvesTo.resolveFrom_eq (hr : r.registry.Compiled) (hf : r.ResolvesTo f d')
    (hd : r.registry.find? f = some d) (hpath : r.Leads path f) (hm : r.Recalls m) :
    (r.resolveFrom path d m).1 = .ok d' := by
  obtain ⟨stored, hstored, hres⟩ := hf
  rw [hd, Option.some.injEq] at hstored
  subst hstored
  obtain ⟨s, hs, -, -⟩ := id hres
  have hclear := hpath.not_reaches (hs.not_reaches_self hd)
  exact (resolveFrom_eq_ok_iff hr hd hclear hm).mpr hres

/-- **A look into the memory only saves work.** -/
theorem fetch_fst (hr : r.registry.Compiled) (hpath : r.Leads path f)
    (hm : r.Recalls m) : (r.fetch path g f m).1 =
      match r.registry.find? f with
      | none => .error (.missingNestedFunction g f)
      | some stored => (r.resolveFrom path stored m).1 := by
  cases hknown : m.find? f with
  | some done =>
      have hdone := hm f done hknown
      obtain ⟨stored, hstored, -⟩ := id hdone
      simp only [fetch_of_known hknown, hstored]
      exact (hdone.resolveFrom_eq hr hstored hpath hm).symm
  | none =>
      cases hstored : r.registry.find? f with
      | none => simp only [fetch_of_missing hknown hstored]
      | some stored => exact fetch_fst_of_unknown hknown hstored

/-- What is resolved somewhere is fetched as that, whoever waits for it. -/
theorem ResolvesTo.fetch_eq (hr : r.registry.Compiled) (hf : r.ResolvesTo f d)
    (hpath : r.Leads path f) (hm : r.Recalls m) : (r.fetch path g f m).1 = .ok d := by
  obtain ⟨stored, hstored, -⟩ := id hf
  simp only [fetch_fst hr hpath hm, hstored, hf.resolveFrom_eq hr hstored hpath hm]

/-- The second resolver holds what the first one holds, and under some names perhaps another
function that is resolved to the same. -/
structure Agrees (r r' : Resolver) : Prop where
  /-- Both have the same limit. -/
  limit_eq : r'.limit = r.limit
  /-- What the second one holds has been compiled too. -/
  compiled : r'.registry.Compiled
  /-- What the first one resolves is resolved to the same by the second. -/
  resolvesTo : ∀ f d, r.ResolvesTo f d → ∃ d', r'.ResolvesTo f d' ∧ d'.gist = d.gist
  /-- Where the second one holds something else, the first one resolves what it holds. -/
  stored : ∀ f, r'.registry.find? f = r.registry.find? f ∨ ∃ d, r.ResolvesTo f d

theorem Agrees.refl (hr : r.registry.Compiled) : r.Agrees r where
  limit_eq := rfl
  compiled := hr
  resolvesTo _ d hd := ⟨d, hd, rfl⟩
  stored _ := .inl rfl

namespace Agrees

/-- What is resolved is fetched alike. -/
theorem fetch_of_resolvesTo (h : r.Agrees r') (hr : r.registry.Compiled) (hf : r.ResolvesTo f d)
    (hpath : r.Leads path f) (hpath' : r'.Leads path f) (hm : r.Recalls m)
    (hm' : r'.Recalls m') : (r'.fetch path g f m').1.map Definition.gist =
      (r.fetch path g f m).1.map Definition.gist := by
  obtain ⟨d', hf', hgist⟩ := h.resolvesTo f d hf
  rw [hf.fetch_eq hr hpath hm, hf'.fetch_eq h.compiled hpath' hm']
  exact congrArg Except.ok hgist

/-- **Two resolvers that agree, each with a memory in which nothing is wrong, give the same
answers and refusals.**  What is fetched through a reference is the same in its gist. -/
theorem fst_eq (h : r.Agrees r') (hr : r.registry.Compiled) :
    (∀ path d m, ∀ l m', r.registry.find? l = some d → r'.registry.find? l = some d →
      r.Leads path l → r'.Leads path l → r.Recalls m → r'.Recalls m' →
      (r'.resolveFrom path d m').1 = (r.resolveFrom path d m).1) ∧
    (∀ path d targets m, ∀ m', (∀ f ∈ targets, r.Leads path f ∧ r'.Leads path f) →
      r.Recalls m → r'.Recalls m' →
      (r'.inlineAll path d targets m').1 = (r.inlineAll path d targets m).1) ∧
    (∀ path g f m, ∀ m', r.Leads path f → r'.Leads path f → r.Recalls m → r'.Recalls m' →
      (r'.fetch path g f m').1.map Definition.gist =
        (r.fetch path g f m).1.map Definition.gist) := by
  have waiting : ∀ {path d l}, r.registry.find? l = some d → r'.registry.find? l = some d →
      r.Leads path l → r'.Leads path l → ∀ f ∈ d.nested.letters,
        r.Leads (path ++ [d.name]) f ∧ r'.Leads (path ++ [d.name]) f := by
    intro path d l hd hd' hpath hpath' f hf
    have hin : .ref f ∈ d.statement := (hr.listed hd).mem_nested.mp hf
    rw [hr.name_eq hd]
    exact ⟨hpath.step (.of_mem hd hin), hpath'.step (.of_mem hd' hin)⟩
  -- the induction follows the run of the first resolver, whose branches decide the other one
  refine resolveFrom.mutual_induct r _ _ _ ?resolved ?cyclic ?refused ?done ?nil ?unfetched
    ?large ?inlined ?known ?missing ?failed ?fetched
  case resolved =>
    intro path d m hres l m' _ _ _ _ _ _
    rw [resolveFrom_of_isResolved hres, resolveFrom_of_isResolved hres]
  case cyclic =>
    intro path d m hres hcyc l m' _ _ _ _ _ _
    rw [resolveFrom_of_mem_path hres hcyc, resolveFrom_of_mem_path hres hcyc]
  case refused | done =>
    intro path d m hres hcyc _ _ _ ih l m' hd hd' hpath hpath' hm hm'
    rw [resolveFrom_fst hres hcyc, resolveFrom_fst hres hcyc,
      ih m' (waiting hd hd' hpath hpath') hm hm']
  case nil =>
    intro path d m m' _ _ _
    rw [inlineAll_nil, inlineAll_nil]
  case unfetched =>
    intro path d m f targets e m₁ hrun ih m' hpath hm hm'
    obtain ⟨hf, hf'⟩ := hpath f (List.mem_cons_self ..)
    have hfetch := ih m' hf hf' hm hm'
    rw [hrun] at hfetch
    rw [inlineAll_cons_fst, inlineAll_cons_fst, hrun, eq_error_of_map_eq_error hfetch]
    rfl
  case large =>
    intro path d m f targets body m₁ hrun e hstep ih m' hpath hm hm'
    obtain ⟨hf, hf'⟩ := hpath f (List.mem_cons_self ..)
    have hfetch := ih m' hf hf' hm hm'
    rw [hrun] at hfetch
    obtain ⟨body', hrun', hgist⟩ := exists_of_map_eq_ok hfetch
    have hstep' := (Definition.inline_of_gist hgist d r.limit f).trans hstep
    rw [inlineAll_cons_fst, inlineAll_cons_fst, h.limit_eq, hrun, hrun', Except.bind, Except.bind,
      hstep, hstep']
    rfl
  case inlined =>
    intro path d m f targets body m₁ hrun c hstep ih ihrest m' hpath hm hm'
    obtain ⟨hf, hf'⟩ := hpath f (List.mem_cons_self ..)
    have hfetch := ih m' hf hf' hm hm'
    have hm₁ := ((yields hr).2.2 path d.name f m hm).2
    have hm₁' := ((yields h.compiled).2.2 path d.name f m' hm').2
    rw [hrun] at hfetch hm₁
    obtain ⟨body', hrun', hgist⟩ := exists_of_map_eq_ok hfetch
    have hstep' := (Definition.inline_of_gist hgist d r.limit f).trans hstep
    rw [inlineAll_cons_fst, inlineAll_cons_fst, h.limit_eq, hrun, hrun', Except.bind, Except.bind,
      hstep, hstep']
    exact ihrest _ (fun g hg => hpath g (List.mem_cons_of_mem _ hg)) hm₁ hm₁'
  case known =>
    intro path g f m done hknown m' hpath hpath' hm hm'
    exact h.fetch_of_resolvesTo hr (hm f done hknown) hpath hpath' hm hm'
  case missing =>
    intro path g f m _ hmissing m' hpath hpath' hm hm'
    rcases h.stored f with hsame | ⟨d, hd⟩
    · simp only [fetch_fst hr hpath hm, fetch_fst h.compiled hpath' hm', hsame, hmissing]
    · exact h.fetch_of_resolvesTo hr hd hpath hpath' hm hm'
  case failed | fetched =>
    intro path g f m _ stored hstored _ _ _ ih m' hpath hpath' hm hm'
    rcases h.stored f with hsame | ⟨d, hd⟩
    · have hrest := ih f m' hstored (hsame.trans hstored) hpath hpath' hm hm'
      simp only [fetch_fst hr hpath hm, fetch_fst h.compiled hpath' hm', hsame, hstored, hrest]
    · exact h.fetch_of_resolvesTo hr hd hpath hpath' hm hm'

end Agrees

/-- **A stored function is resolved, or refused, as if nothing were remembered.** -/
theorem resolve_fst_eq (hr : r.registry.Compiled) (hd : r.registry.find? l = some d)
    (hm : r.Recalls m) : (r.resolve d m).1 = (r.resolve d ∅).1 :=
  ((Agrees.refl hr).fst_eq hr).1 [] d ∅ l m hd hd (fun _ hp => nomatch hp)
    (fun _ hp => nomatch hp) recalls_empty hm

end

/-! ### One request after another -/

/-- What becomes of the function of a name if it is asked for alone. -/
def alone (r : Resolver) (c : Char) : Except Error Definition :=
  match r.registry.lookup c with
  | .error e => .error e
  | .ok d => (r.resolve d ∅).1

section

variable {r : Resolver} {d : Definition} {c : Char} {m : Memory}

theorem alone_of_lookup {stored : Definition} (hd : r.registry.lookup c = .ok stored) :
    r.alone c = (r.resolve stored ∅).1 := by
  simp only [alone, hd]

theorem alone_of_lookup_error {e : Error} (h : r.registry.lookup c = .error e) :
    r.alone c = .error e := by
  simp only [alone, h]

/-- Resolvers that agree, and look the same up, give the same answer or refusal. -/
theorem Agrees.alone_eq {r' : Resolver} (h : r.Agrees r') (hr : r.registry.Compiled)
    (hlookup : r'.registry.lookup c = r.registry.lookup c) : r'.alone c = r.alone c := by
  cases hd : r.registry.lookup c with
  | error e => rw [alone_of_lookup_error hd, alone_of_lookup_error (hlookup.trans hd)]
  | ok stored =>
      have hstored := hr.find?_of_lookup hd
      have hstored' := h.compiled.find?_of_lookup (hlookup.trans hd)
      rw [alone_of_lookup hd, alone_of_lookup (hlookup.trans hd)]
      exact (h.fst_eq hr).1 [] stored ∅ stored.name ∅ hstored hstored' (fun _ hp => nomatch hp)
        (fun _ hp => nomatch hp) recalls_empty recalls_empty

/-- What refers to nothing is given back as it is. -/
theorem alone_of_isResolved (hd : r.registry.lookup c = .ok d) (h : d.isResolved = true) :
    r.alone c = .ok d := by
  rw [alone_of_lookup hd, resolve, resolveFrom_of_isResolved h]

theorem alone_eq_ok_iff : r.alone c = .ok d ↔
    ∃ stored, r.registry.lookup c = .ok stored ∧ (r.resolve stored ∅).1 = .ok d := by
  cases hd : r.registry.lookup c with
  | error e => simp [alone_of_lookup_error hd]
  | ok stored => simp [alone_of_lookup hd]

/-- What is resolved keeps the name that it was asked for by, and its variables are those of
the statement. -/
theorem of_alone (hr : r.registry.Compiled) (h : r.alone c = .ok d) :
    d.name.char = c ∧ d.vars = d.statement.vars := by
  obtain ⟨stored, hd, hres⟩ := alone_eq_ok_iff.mp h
  obtain ⟨s, -, -, rfl⟩ :=
    (resolve_eq_ok_iff hr (hr.find?_of_lookup hd) recalls_empty).mp hres
  have hname : stored.name.char = c := hr.char_name_of_lookup hd
  exact ⟨hname, rfl⟩

/-- What is stored is resolved first and the other names after it. -/
theorem resolveNamed_cons_fst {stored : Definition} (hd : r.registry.lookup c = .ok stored)
    (names : List Char) : (r.resolveNamed (c :: names) m).1 =
      (r.resolve stored m).1.bind fun d =>
        (r.resolveNamed names (r.resolve stored m).2).1.map (d :: ·) := by
  rw [resolveNamed, hd]
  cases hrun : r.resolve stored m with
  | mk out m' =>
      cases out with
      | error e => simp only [hrun, Except.bind]
      | ok d =>
          cases hrest : r.resolveNamed names m' with
          | mk outs m'' => cases outs <;> simp only [hrun, hrest, Except.bind, Except.map]

/-- **Functions named one after another are resolved as each of them is alone**, up to the
first that is refused. -/
theorem resolveNamed_fst (hr : r.registry.Compiled) : ∀ (names : List Char) (m : Memory),
    r.Recalls m → (r.resolveNamed names m).1 = names.mapM r.alone := by
  intro names
  induction names with
  | nil =>
      intro m _
      rfl
  | cons c names ih =>
      intro m hm
      rw [List.mapM_cons]
      cases hd : r.registry.lookup c with
      | error e => simp [resolveNamed, hd, alone_of_lookup_error hd, bind, Except.bind]
      | ok stored =>
          have hstored := hr.find?_of_lookup hd
          have hfirst : (r.resolve stored m).1 = r.alone c :=
            (resolve_fst_eq hr hstored hm).trans (alone_of_lookup hd).symm
          have hrest : (r.resolveNamed names (r.resolve stored m).2).1 = names.mapM r.alone :=
            ih _ ((yields hr).1 [] stored m (hr.listed hstored) hm).2
          rw [resolveNamed_cons_fst hd, hfirst, hrest]
          cases r.alone c with
          | error e => rfl
          | ok d => cases names.mapM r.alone <;> rfl

end

/-- With fifteen tokens the function `g = a*!$f+b*$f` is refused for one token too many. -/
theorem resolve_outer_refused :
    (resolve ⟨twice, 15⟩ outer ∅).1 = .error (.statementTooLarge .g 16 15) := by
  have hletters : outer.nested.letters = [.f] := rfl
  have hfetch : fetch ⟨twice, 15⟩ [.g] .g .f ∅ = (.ok inner, Memory.remember ∅ .f inner) := by
    have hknown : (∅ : Memory).find? .f = none := rfl
    have hstored : twice.find? .f = some inner := rfl
    exact fetch_of_fetched hknown hstored (resolveFrom_of_isResolved rfl)
  have hinline : outer.inline 15 .f inner = .error (.statementTooLarge .g 16 15) := rfl
  have hname : ([] ++ [outer.name] : List Letter) = [.g] := rfl
  have hinner : outer.name = .g := rfl
  rw [resolve, resolveFrom_fst (by decide) (by simp), hletters, hname]
  rw [inlineAll_of_large (by rw [hinner]; exact hfetch) hinline, Except.map]

end Resolver

end Switching
