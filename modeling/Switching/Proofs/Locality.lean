/-
What is not reached has no influence.

A request is answered from the functions that it names and from those that they refer to,
directly or through others.  So two registries give the same answer if they hold the same
under each of these names; it does not matter what they hold under the others, or whether
they hold anything.  The same is meant in full: the answer or the refusal with all that it
says, what is remembered, and the journal.

`SameFrom` is what two registries have to have in common for a name: the name itself and
all that it reaches in the first of them.  A name that is referred to and not stored is
reached like any other, for it would make a difference to store it.  A step from a function
to one that it refers to keeps this up, and so the two runs go side by side: they find the
same functions, add the same names to the path and make the same entries in the memory.
-/
import Switching.Proofs.Resolution
import Switching.Session

namespace Switching

namespace Registry

/-- Both registries hold the same under `f` and under every name that `f` reaches in the
first. -/
def SameFrom (r s : Registry) (f : Letter) : Prop :=
  ∀ g, g = f ∨ r.Reaches f g → s.find? g = r.find? g

/-- Both registries hold the same under a character and under every name that it reaches, if
it is a name. -/
def SameFor (r s : Registry) (c : Char) : Prop :=
  ∀ l, l.char = c → r.SameFrom s l

variable {r s : Registry} {f g h : Letter} {c : Char}

theorem SameFrom.find?_eq (hf : r.SameFrom s f) : s.find? f = r.find? f :=
  hf f (.inl rfl)

theorem SameFrom.of_reaches (hf : r.SameFrom s f) (hg : r.Reaches f g) : r.SameFrom s g := by
  intro l hl
  rcases hl with rfl | hl
  · exact hf l (.inr hg)
  · exact hf l (.inr (hg.trans hl))

/-- A name that is found is found in both. -/
theorem SameFor.lookup_eq (hc : r.SameFor s c) : s.lookup c = r.lookup c :=
  lookup_congr fun l hl => (hc l hl).find?_eq

/-- Registries that differ under one name only are the same for those that do not reach it. -/
theorem sameFor_of_unreached (hagree : ∀ f, f ≠ h → s.find? f = r.find? f) (hc : c ≠ h.char)
    (hout : ∀ l, l.char = c → ¬ r.Reaches l h) : r.SameFor s c := by
  intro l hl g hg
  refine hagree g ?_
  rintro rfl
  rcases hg with rfl | hg
  · exact hc hl.symm
  · exact hout l hl hg

end Registry

namespace Resolver

variable {r : Resolver} {s : Registry} {d : Definition} {c : Char}

/-- All that a stored function refers to is the same in both registries if the function is. -/
theorem sameFrom_nested (hr : r.registry.Compiled) {l : Letter}
    (hd : r.registry.find? l = some d) (hl : r.registry.SameFrom s l) :
    ∀ f ∈ d.nested.letters, r.registry.SameFrom s f := by
  intro f hf
  exact hl.of_reaches (.of_mem hd ((hr.listed hd).mem_nested.mp hf))

/-- **The two runs go side by side**, with the same result and the same memory after each
step. -/
theorem resolveFrom_congr (hr : r.registry.Compiled) (s : Registry) :
    (∀ path (d : Definition) m, (∀ f ∈ d.nested.letters, r.registry.SameFrom s f) →
      resolveFrom ⟨s, r.limit⟩ path d m = r.resolveFrom path d m) ∧
    (∀ path (d : Definition) targets m, (∀ f ∈ targets, r.registry.SameFrom s f) →
      inlineAll ⟨s, r.limit⟩ path d targets m = r.inlineAll path d targets m) ∧
    (∀ path g f m, r.registry.SameFrom s f →
      fetch ⟨s, r.limit⟩ path g f m = r.fetch path g f m) := by
  refine r.run_induct
    (P := fun path d m out => (∀ f ∈ d.nested.letters, r.registry.SameFrom s f) →
      resolveFrom ⟨s, r.limit⟩ path d m = out)
    (Q := fun path d targets m out => (∀ f ∈ targets, r.registry.SameFrom s f) →
      inlineAll ⟨s, r.limit⟩ path d targets m = out)
    (R := fun path g f m out => r.registry.SameFrom s f →
      fetch ⟨s, r.limit⟩ path g f m = out)
    ?resolved ?cyclic ?refused ?done ?nil ?unfetched ?large ?inlined ?known ?missing ?failed
    ?fetched
  case resolved =>
    intro path d m hres _
    exact resolveFrom_of_isResolved hres
  case cyclic =>
    intro path d m hres hcyc _
    exact resolveFrom_of_mem_path hres hcyc
  case refused =>
    intro path d m hres hfresh e m' _ ih hsame
    exact resolveFrom_of_refused hres hfresh (ih hsame)
  case done =>
    intro path d m hres hfresh whole m' _ ih hsame
    exact resolveFrom_of_done hres hfresh (ih hsame)
  case nil =>
    intro path d m _
    exact inlineAll_nil
  case unfetched =>
    intro path d m f targets e m' _ ih hsame
    exact inlineAll_of_unfetched (ih (hsame f (List.mem_cons_self ..)))
  case large =>
    intro path d m f targets body m' _ e hstep ih hsame
    exact inlineAll_of_large (ih (hsame f (List.mem_cons_self ..))) hstep
  case inlined =>
    intro path d m f targets body m' _ c hstep ih ihrest hsame
    rw [inlineAll_of_inlined (ih (hsame f (List.mem_cons_self ..))) hstep]
    exact ihrest fun g hg => hsame g (List.mem_cons_of_mem _ hg)
  case known =>
    intro path g f m done hknown _
    exact fetch_of_known hknown
  case missing =>
    intro path g f m hunknown hmissing hsame
    exact fetch_of_missing hunknown (hsame.find?_eq.trans hmissing)
  case failed =>
    intro path g f m hunknown stored hstored e m' _ ih hsame
    exact fetch_of_failed hunknown (hsame.find?_eq.trans hstored)
      (ih (sameFrom_nested hr hstored hsame))
  case fetched =>
    intro path g f m hunknown stored hstored done m' _ ih hsame
    exact fetch_of_fetched hunknown (hsame.find?_eq.trans hstored)
      (ih (sameFrom_nested hr hstored hsame))

theorem resolve_congr (hr : r.registry.Compiled) (hc : r.registry.SameFor s c)
    (hd : r.registry.lookup c = .ok d) (m : Memory) :
    resolve ⟨s, r.limit⟩ d m = r.resolve d m := by
  obtain ⟨l, hl, hstored⟩ := Registry.lookup_eq_ok_iff.mp hd
  exact (resolveFrom_congr hr s).1 [] d m (sameFrom_nested hr hstored (hc l hl))

/-- Names that are the same for both registries are resolved one after another alike. -/
theorem resolveNamed_congr (hr : r.registry.Compiled) : ∀ (names : List Char) (m : Memory),
    (∀ c ∈ names, r.registry.SameFor s c) →
    resolveNamed ⟨s, r.limit⟩ names m = r.resolveNamed names m := by
  intro names
  induction names with
  | nil =>
      intro m _
      rfl
  | cons c names ih =>
      intro m hsame
      have hc := hsame c (List.mem_cons_self ..)
      have hrest := fun m => ih m fun c' hc' => hsame c' (List.mem_cons_of_mem _ hc')
      rw [resolveNamed, resolveNamed, hc.lookup_eq]
      cases hd : r.registry.lookup c with
      | error e => rfl
      | ok stored => simp only [resolve_congr hr hc hd, hrest]

theorem ofNames_congr (hr : r.registry.Compiled) {names : List Char}
    (hsame : ∀ c ∈ names, r.registry.SameFor s c) (limit : Option Nat) :
    TruthTable.ofNames ⟨s, r.limit⟩ limit names = TruthTable.ofNames r limit names := by
  have hrun : resolveNamed ⟨s, r.limit⟩ names = r.resolveNamed names :=
    funext fun m => resolveNamed_congr hr names m hsame
  rw [TruthTable.ofNames, TruthTable.ofNames, hrun]

end Resolver

namespace Session

variable {config : Config} {r s : Registry} {c : Char}

theorem resolved_congr (hr : r.Compiled) (hc : r.SameFor s c) :
    resolved ⟨config, s⟩ c = resolved ⟨config, r⟩ c := by
  unfold resolved
  have hlookup : s.lookup c = r.lookup c := hc.lookup_eq
  simp only [hlookup]
  cases hd : r.lookup c with
  | error e => rfl
  | ok d =>
      have hrun : Resolver.resolve ⟨s, config.maxStatementTokens⟩ d =
          Resolver.resolve ⟨r, config.maxStatementTokens⟩ d :=
        funext (Resolver.resolve_congr (r := ⟨r, _⟩) hr hc hd)
      exact congrArg Resolver.journaled hrun

theorem view_congr (hr : r.Compiled) (hc : r.SameFor s c) (expand : Bool) :
    view ⟨config, s⟩ (.function c) expand = view ⟨config, r⟩ (.function c) expand := by
  simp only [view, viewText, resolved_congr hr hc, hc.lookup_eq]

theorem karnaughMap_congr (hr : r.Compiled) (hc : r.SameFor s c) :
    karnaughMap ⟨config, s⟩ c = karnaughMap ⟨config, r⟩ c := by
  simp only [karnaughMap, resolved_congr hr hc]

theorem truthTable_congr (hr : r.Compiled) {targets : List Char}
    (hsame : ∀ c ∈ targets, r.SameFor s c) :
    truthTable ⟨config, s⟩ targets = truthTable ⟨config, r⟩ targets :=
  Resolver.ofNames_congr (r := ⟨r, _⟩) hr hsame _

/-- **What is stored under a name that no target is and no target reaches makes no
difference to the targets.**  Whether it is added, replaced or left out, each of them is
resolved, shown and mapped as before and the table of all is as before, down to what a
refusal says and to the journal. -/
theorem eq_of_unreached {h : Letter} {targets : List Char} (hr : r.Compiled)
    (hagree : ∀ f, f ≠ h → s.find? f = r.find? f)
    (hout : ∀ c ∈ targets, c ≠ h.char ∧ ∀ l, l.char = c → ¬ r.Reaches l h) :
    (∀ c ∈ targets, s.lookup c = r.lookup c ∧
      (∀ d limit m, r.lookup c = .ok d →
        Resolver.resolve ⟨s, limit⟩ d m = Resolver.resolve ⟨r, limit⟩ d m) ∧
      (∀ expand, view ⟨config, s⟩ (.function c) expand =
        view ⟨config, r⟩ (.function c) expand) ∧
      karnaughMap ⟨config, s⟩ c = karnaughMap ⟨config, r⟩ c ∧
      kmap ⟨config, s⟩ c = kmap ⟨config, r⟩ c) ∧
    (∀ limit max, TruthTable.ofNames ⟨s, limit⟩ max targets =
      TruthTable.ofNames ⟨r, limit⟩ max targets) ∧
    truthTable ⟨config, s⟩ targets = truthTable ⟨config, r⟩ targets ∧
    table ⟨config, s⟩ targets = table ⟨config, r⟩ targets := by
  have hsame : ∀ c ∈ targets, r.SameFor s c := by
    intro c hc
    obtain ⟨hne, hunreached⟩ := hout c hc
    exact Registry.sameFor_of_unreached hagree hne hunreached
  have htable : truthTable ⟨config, s⟩ targets = truthTable ⟨config, r⟩ targets :=
    truthTable_congr hr hsame
  refine ⟨?_, ?_, htable, by simp only [table, htable]⟩
  · intro c hc
    have hc := hsame c hc
    have hmap : karnaughMap ⟨config, s⟩ c = karnaughMap ⟨config, r⟩ c :=
      karnaughMap_congr hr hc
    refine ⟨hc.lookup_eq, ?_, view_congr hr hc, hmap, by simp only [kmap, hmap]⟩
    intro d limit m hd
    exact Resolver.resolve_congr (r := ⟨r, limit⟩) hr hc hd m
  · intro limit max
    exact Resolver.ofNames_congr (r := ⟨r, limit⟩) hr hsame max

/-- The function `a = $g`, under a letter that the others have a variable of. -/
def bystander : Definition where
  name := .a
  expression := "$g"
  statement := [.ref .g]
  vars := ∅
  nested := .ofList [.g]

/-- A function that refers to `g` and takes the name of one of its variables does not change
the table of `g`. -/
theorem eq_of_unreached_bystander : Resolver.twice.Compiled ∧
    (∀ l, l.char = 'g' → ¬ Resolver.twice.Reaches l .a) ∧
    table ⟨⟨8, 16, 2000, false⟩, Resolver.twice.define bystander⟩ ['g'] =
      table ⟨⟨8, 16, 2000, false⟩, Resolver.twice⟩ ['g'] := by
  have hstored : Resolver.twice.find? .g = some Resolver.outer := rfl
  have hagree : ∀ f, f ≠ .a →
      (Resolver.twice.define bystander).find? f = Resolver.twice.find? f :=
    fun f hf => if_neg hf
  have hunreached : ∀ l, l.char = 'g' → ¬ Resolver.twice.Reaches l .a := by
    rintro l hl hreach
    have hname : l = .g := Letter.char_inj hl
    rw [hname] at hreach
    obtain ⟨d, hd⟩ := (Resolver.expands_outer.closed hstored).1 .a hreach
    cases hd
  refine ⟨Resolver.compiled_twice, hunreached, ?_⟩
  refine (eq_of_unreached Resolver.compiled_twice hagree ?_).2.2.2
  intro c hc
  rw [List.mem_singleton.mp hc]
  exact ⟨by decide, hunreached⟩

end Session

end Switching
