/-
What resolution computes.

The resolver puts in one function after another, checks the size each time, remembers
what it has resolved and watches its path.  The full expansion says none of this, and
yet it is what comes out, exactly when it exists and is small enough.

That nothing else comes out is an invariant of the memory: all that is remembered is
right.  A run of the loop over the references is then one filling, because a resolved
body has nothing left to fill.

That it does come out is an induction on the expansion.  Every refusal but one is excluded
on the way: no name can be missing, and a statement in the middle of the loop, like the body
of every reference, is no longer than the expansion that it ends up in.  What is left is a
name on the path that is reached again, and so waits in vain.
-/
import Switching.Proofs.Expansion
import Switching.Proofs.Runs

namespace Switching

/-- The definition with `s` for its statement and no function left to refer to. -/
def Definition.writtenOut (d : Definition) (s : Statement) : Definition :=
  { d with statement := s, vars := s.vars, nested := ∅ }

namespace Resolver

/-- A statement of `n` tokens is not too large, a number beyond all counts being taken for
the largest of them. -/
def Allows (r : Resolver) (n : Nat) : Prop :=
  min n maxCount ≤ r.limit

/-- What resolving `d` comes to: `d` written out to its full expansion, if anything had to be
written out of an allowed size. -/
def Resolves (r : Resolver) (d d' : Definition) : Prop :=
  ∃ s, r.registry.Expands d s ∧ (d.isResolved = true ∨ r.Allows s.length) ∧ d' = d.writtenOut s

/-- The function stored under `f` comes to `d'`. -/
def ResolvesTo (r : Resolver) (f : Letter) (d' : Definition) : Prop :=
  ∃ d, r.registry.find? f = some d ∧ r.Resolves d d'

section

variable {r : Resolver} {d d' : Definition} {f : Letter} {m : Memory}

/-- What refers to nothing is resolved as it is. -/
theorem Resolves.of_isResolved (hd : d.Listed) (h : d.isResolved = true) : r.Resolves d d := by
  refine ⟨d.statement, .of_no_ref (hd.isResolved_iff.mp h), .inl h, ?_⟩
  unfold Definition.writtenOut
  rw [← hd.vars_eq, ← LetterSet.isEmpty_iff.mp h]

theorem ResolvesTo.expansion?_eq (h : r.ResolvesTo f d') :
    r.registry.expansion? f = some d'.statement := by
  obtain ⟨d, hd, s, hs, -, rfl⟩ := h
  exact Registry.expansion?_eq_some_iff.mpr ⟨d, hd, hs⟩

theorem ResolvesTo.vars_eq (h : r.ResolvesTo f d') : d'.vars = d'.statement.vars := by
  obtain ⟨d, hd, s, hs, -, rfl⟩ := h
  rfl

/-- A name comes to one definition. -/
theorem ResolvesTo.unique {d'' : Definition} (h : r.ResolvesTo f d') (h' : r.ResolvesTo f d'') :
    d' = d'' := by
  obtain ⟨d, hd, s, hs, -, rfl⟩ := h
  obtain ⟨d₂, hd₂, t, ht, -, rfl⟩ := h'
  rw [hd, Option.some.injEq] at hd₂
  subst hd₂
  rw [hs.unique ht]

theorem Allows.mono {n k : Nat} (h : r.Allows n) (hk : k ≤ n) : r.Allows k := by
  unfold Allows at h ⊢
  omega

/-- Below the largest count nothing is mistaken for it. -/
theorem allows_iff (h : r.limit < maxCount) {n : Nat} : r.Allows n ↔ n ≤ r.limit := by
  unfold Allows
  omega

/-- One step of the loop checks the size of its result and nothing else. -/
theorem inline_eq (d : Definition) (f : Letter) (body : Definition) :
    (∃ e, d.inline r.limit f body = .error e ∧
      ¬ r.Allows (d.statement.substitute f body.statement).length) ∨
    d.inline r.limit f body = .ok { d with
        statement := d.statement.substitute f body.statement
        vars := d.vars ∪ body.vars } ∧
      r.Allows (d.statement.substitute f body.statement).length := by
  unfold Definition.inline Allows
  rw [Statement.getD_substitutedSize?]
  by_cases h : min (d.statement.substitute f body.statement).length maxCount ≤ r.limit
  · exact .inr ⟨if_pos h, h⟩
  · exact .inl ⟨_, if_neg h, h⟩

/-! ### All that comes out is right -/

/-- Everything remembered is right. -/
def Recalls (r : Resolver) (m : Memory) : Prop :=
  ∀ f d', m.find? f = some d' → r.ResolvesTo f d'

theorem recalls_empty : r.Recalls ∅ := by
  intro f d' h
  cases h

theorem Recalls.remember (hm : r.Recalls m) (h : r.ResolvesTo f d') :
    r.Recalls (m.remember f d') := by
  intro g dg hg
  unfold Memory.find? Memory.remember at hg
  by_cases hgf : g = f
  · rw [hgf, List.lookup_cons_self, Option.some.injEq] at hg
    rw [hgf, ← hg]
    exact h
  · rw [List.lookup_cons, beq_eq_false_iff_ne.mpr hgf] at hg
    exact hm g dg hg

theorem Recalls.note (hm : r.Recalls m) (d : Definition) : r.Recalls (m.note d) :=
  hm

/-- What a run of the loop over `targets` makes of `d`: one filling with full expansions. -/
structure Inlined (r : Resolver) (d : Definition) (targets : List Letter) (d' : Definition) :
    Prop where
  /-- The name and the expression stay. -/
  same : d'.name = d.name ∧ d'.expression = d.expression
  /-- A run that had anything to do ended with an allowed size. -/
  allowed : targets = [] ∨ r.Allows d'.statement.length
  /-- Every target has a full expansion. -/
  expanded : ∀ f ∈ targets, ∃ s, r.registry.expansion? f = some s
  /-- The expansions have been put in. -/
  statement_eq : d'.statement = d.statement.fill (r.registry.bodies targets)
  /-- The variables of the expansions have been added. -/
  mem_vars_iff : ∀ v, v ∈ d'.vars ↔
    v ∈ d.vars ∨ ∃ f ∈ targets, ∃ s, r.registry.expansion? f = some s ∧ .var v ∈ s

theorem Inlined.nil (d : Definition) : r.Inlined d [] d where
  same := ⟨rfl, rfl⟩
  allowed := .inl rfl
  expanded := by simp
  statement_eq := (Registry.fill_bodies_nil _).symm
  mem_vars_iff := by simp

/-- One more target in front is one more body. -/
theorem Inlined.cons {targets : List Letter} {body c : Definition} (hbody : r.ResolvesTo f body)
    (hstep : d.inline r.limit f body = .ok c) (h : r.Inlined c targets d') :
    r.Inlined d (f :: targets) d' := by
  have hf := hbody.expansion?_eq
  rcases inline_eq (r := r) d f body with ⟨e, he, -⟩ | ⟨hc, hsize⟩
  · rw [he] at hstep
    cases hstep
  · rw [hc, Except.ok.injEq] at hstep
    subst hstep
    have hstatement : d'.statement = d.statement.fill (r.registry.bodies (f :: targets)) := by
      rw [h.statement_eq]
      exact Registry.fill_bodies_substitute hf
    refine ⟨h.same, ?_, ?_, hstatement, ?_⟩
    · rcases h.allowed with rfl | hall
      · rw [h.statement_eq, Registry.fill_bodies_nil]
        exact .inr hsize
      · exact .inr hall
    · intro g hg
      rcases List.mem_cons.mp hg with rfl | hg
      · exact ⟨_, hf⟩
      · exact h.expanded g hg
    · intro v
      rw [h.mem_vars_iff, LetterSet.mem_union, hbody.vars_eq, Statement.mem_vars]
      simp only [List.mem_cons, exists_eq_or_imp, hf, Option.some.injEq, exists_eq_left']
      rw [or_assoc]

/-- A loop over everything that `d` refers to leaves nothing but the note that it is done. -/
theorem Inlined.resolves (hd : d.Listed) (hres : d.isResolved = false)
    (h : r.Inlined d d.nested.letters d') : r.Resolves d { d' with nested := ∅ } := by
  have hbodies : ∀ f, .ref f ∈ d.statement →
      ∃ df s, r.registry.bodies d.nested.letters f = some s ∧
        r.registry.find? f = some df ∧ r.registry.Expands df s := by
    intro f hf
    have hin : f ∈ d.nested.letters := hd.mem_nested.mpr hf
    obtain ⟨s, hs⟩ := h.expanded f hin
    obtain ⟨df, hdf, hexp⟩ := Registry.expansion?_eq_some_iff.mp hs
    refine ⟨df, s, ?_, hdf, hexp⟩
    unfold Registry.bodies
    rw [if_pos hin, hs]
  have hvars : d'.vars = d'.statement.vars := by
    ext v
    rw [h.mem_vars_iff, hd.vars_eq, h.statement_eq, Statement.mem_vars, Statement.mem_vars,
      Statement.mem_fill_iff (by simp) (by simp)]
    constructor
    · intro hor
      rcases hor with hv | ⟨f, hf, s, hs, hv⟩
      · exact .inl ⟨hv, by simp⟩
      · exact .inr ⟨f, s, hd.mem_nested.mp hf, (if_pos hf).trans hs, hv⟩
    · intro hor
      rcases hor with ⟨hv, -⟩ | ⟨f, s, hf, hs, hv⟩
      · exact .inl hv
      · have hin : f ∈ d.nested.letters := hd.mem_nested.mpr hf
        exact .inr ⟨f, hin, s, (if_pos hin).symm.trans hs, hv⟩
  refine ⟨d'.statement, ?_, .inr ?_, ?_⟩
  · rw [h.statement_eq]
    exact .of_fill hbodies
  · rcases h.allowed with hnil | hall
    · rw [Definition.isResolved, LetterSet.isEmpty, hnil] at hres
      cases hres
    · exact hall
  · unfold Definition.writtenOut
    rw [← hvars, ← h.same.1, ← h.same.2]

/-- What a step gives, if it gives anything, is as `P` says, and its memory is right. -/
def Yields (r : Resolver) (out : Except Error Definition × Memory) (P : Definition → Prop) :
    Prop :=
  (∀ d, out.1 = .ok d → P d) ∧ r.Recalls out.2

theorem yields_error {e : Error} {P : Definition → Prop} (hm : r.Recalls m) :
    r.Yields (.error e, m) P :=
  ⟨fun _ h => (nomatch h), hm⟩

theorem yields_ok {P : Definition → Prop} (hd : P d) (hm : r.Recalls m) :
    r.Yields (.ok d, m) P :=
  ⟨fun _ h => Except.ok.inj h ▸ hd, hm⟩

/-- **Whatever the resolver gives is right**, and so is whatever it remembers. -/
theorem yields (hr : r.registry.Compiled) :
    (∀ path d m, d.Listed → r.Recalls m → r.Yields (r.resolveFrom path d m) (r.Resolves d)) ∧
    (∀ path d targets m, r.Recalls m →
      r.Yields (r.inlineAll path d targets m) (r.Inlined d targets)) ∧
    (∀ path g f m, r.Recalls m → r.Yields (r.fetch path g f m) (r.ResolvesTo f)) := by
  refine r.run_induct (P := fun _ d m out => d.Listed → r.Recalls m → r.Yields out (r.Resolves d))
    (Q := fun _ d targets m out => r.Recalls m → r.Yields out (r.Inlined d targets))
    (R := fun _ _ f m out => r.Recalls m → r.Yields out (r.ResolvesTo f)) ?resolved ?cyclic
    ?refused ?done ?nil ?unfetched ?large ?inlined ?known ?missing ?failed ?fetched
  case resolved =>
    intro path d m hres hd hm
    exact yields_ok (.of_isResolved hd hres) hm
  case cyclic =>
    intro path d m hres hcyc hd hm
    exact yields_error hm
  case refused =>
    intro path d m hres hfresh e m' hrun ih hd hm
    exact yields_error (ih hm).2
  case done =>
    intro path d m hres hfresh whole m' hrun ih hd hm
    have hloop := ih hm
    exact yields_ok ((hloop.1 _ rfl).resolves hd (by simpa using hres)) (hloop.2.note _)
  case nil =>
    intro path d m hm
    exact yields_ok (.nil d) hm
  case unfetched =>
    intro path d m f targets e m' hrun ih hm
    exact yields_error (ih hm).2
  case large =>
    intro path d m f targets body m' hrun e hstep ih hm
    exact yields_error (ih hm).2
  case inlined =>
    intro path d m f targets body m' hrun c hstep ih ihrest hm
    have hfetch := ih hm
    have hrest := ihrest hfetch.2
    exact ⟨fun d' hd' => (hrest.1 d' hd').cons (hfetch.1 _ rfl) hstep, hrest.2⟩
  case known =>
    intro path g f m done hknown hm
    exact yields_ok (hm f done hknown) hm
  case missing =>
    intro path g f m hunknown hmissing hm
    exact yields_error hm
  case failed =>
    intro path g f m hunknown stored hstored e m' hrun ih hm
    exact yields_error (ih (hr.listed hstored) hm).2
  case fetched =>
    intro path g f m hunknown stored hstored done m' hrun ih hm
    have hres := ih (hr.listed hstored) hm
    have hdone : r.ResolvesTo f done := ⟨stored, hstored, hres.1 _ rfl⟩
    exact yields_ok hdone (hres.2.remember hdone)

/-! ### All that is right comes out -/

/-- The step succeeds, or is refused for a reason that `P` allows. -/
def Lands (out : Except Error Definition) (P : Error → Prop) : Prop :=
  (∃ d, out = .ok d) ∨ ∃ e, out = .error e ∧ P e

/-- A stored function is fetched if it is resolved. -/
theorem Lands.fetch {path : List Letter} {g : Letter} {P : Error → Prop}
    (hd : r.registry.find? f = some d) (h : Lands (r.resolveFrom path d m).1 P) :
    Lands (r.fetch path g f m).1 P := by
  cases hknown : m.find? f with
  | some done =>
      rw [fetch_of_known hknown]
      exact .inl ⟨done, rfl⟩
  | none =>
      rw [fetch_fst_of_unknown hknown hd]
      exact h

/-- The loop goes through if every target can be fetched and what it leads to is allowed. -/
theorem inlineAll_lands (hr : r.registry.Compiled) {path : List Letter} {P : Error → Prop} :
    ∀ {targets : List Letter} {d : Definition} {m : Memory}, r.Recalls m →
    (∀ f ∈ targets, ∀ g m, r.Recalls m → Lands (r.fetch path g f m).1 P) →
    r.Allows (d.statement.fill (r.registry.bodies targets)).length →
    Lands (r.inlineAll path d targets m).1 P := by
  intro targets
  induction targets with
  | nil =>
      intro d m _ _ _
      rw [inlineAll_nil]
      exact .inl ⟨d, rfl⟩
  | cons f targets ih =>
      intro d m hm hfetch hall
      have hfirst := hfetch f (List.mem_cons_self ..) d.name m hm
      have hyields := (yields hr).2.2 path d.name f m hm
      cases hrun : r.fetch path d.name f m with
      | mk out m' =>
          rw [hrun] at hfirst hyields
          cases out with
          | error e =>
              rw [inlineAll_of_unfetched hrun]
              exact hfirst
          | ok body =>
              have hbody : r.ResolvesTo f body := hyields.1 body rfl
              rw [← Registry.fill_bodies_substitute hbody.expansion?_eq] at hall
              -- the statement is no longer now than it will be at the end
              have hnow := hall.mono Statement.length_le_length_fill
              rcases inline_eq (r := r) d f body with ⟨e, -, hlarge⟩ | ⟨hstep, -⟩
              · exact absurd hnow hlarge
              · rw [inlineAll_of_inlined hrun hstep]
                exact ih hyields.2 (fun g hg => hfetch g (List.mem_cons_of_mem _ hg)) hall

/-- The refusal is a cycle back to a name on `path` that is `l` or reached from `l`, and whose
function refers to something. -/
def BackAlong (r : Resolver) (path : List Letter) (l : Letter) (e : Error) : Prop :=
  ∃ q p, e = .cyclicReference (q ++ [p]) ∧ p ∈ path ∧ (p = l ∨ r.registry.Reaches l p) ∧
    ∃ d, r.registry.find? p = some d ∧ d.isResolved = false

/-- From what a function on no cycle refers to, nothing leads back to the function. -/
theorem BackAlong.of_reaches {path : List Letter} {l : Letter} {e : Error}
    (h : r.BackAlong (path ++ [l]) f e) (hself : ¬ r.registry.Reaches l l)
    (hlf : r.registry.Reaches l f) : r.BackAlong path l e := by
  obtain ⟨q, p, he, hp, hreach, hstored⟩ := h
  have hlp : r.registry.Reaches l p := by
    rcases hreach with rfl | hfp
    · exact hlf
    · exact hlf.trans hfp
  rcases List.mem_append.mp hp with hp | hp
  · exact ⟨q, p, he, hp, .inr hlp, hstored⟩
  · rw [List.mem_singleton.mp hp] at hlp
    exact absurd hlp hself

/-- **What has an expansion of an allowed size is resolved**, whatever is remembered, if
nobody waits for it in vain. -/
theorem resolveFrom_lands (hr : r.registry.Compiled) {s : Statement} (h : r.registry.Expands d s) :
    ∀ {l : Letter} {path : List Letter} {m : Memory}, r.registry.find? l = some d →
    (d.isResolved = true ∨ r.Allows s.length) → r.Recalls m →
    Lands (r.resolveFrom path d m).1 (r.BackAlong path l) := by
  induction h with
  | @intro d target body stored expanded ih =>
      intro l path m hd hsize hm
      have hexp : r.registry.Expands d (d.statement.fill fun f => some (body f)) :=
        .intro stored expanded
      have hlisted := hr.listed hd
      have hname : d.name = l := hr.name_eq hd
      by_cases hres : d.isResolved = true
      · rw [resolveFrom_of_isResolved hres]
        exact .inl ⟨d, rfl⟩
      by_cases hcyc : d.name ∈ path
      · rw [resolveFrom_of_mem_path hres hcyc]
        rw [Bool.not_eq_true] at hres
        exact .inr ⟨_, rfl, path, d.name, rfl, hcyc, .inl hname, d, hname ▸ hd, hres⟩
      have hall := hsize.resolve_left hres
      -- all that the loop asks for has an expansion, and it lies inside that of `d`
      have hfetch : ∀ f ∈ d.nested.letters, ∀ g m, r.Recalls m →
          Lands (r.fetch (path ++ [d.name]) g f m).1 (r.BackAlong path l) := by
        intro f hf g m hm
        have hin : .ref f ∈ d.statement := hlisted.mem_nested.mp hf
        have hlf : r.registry.Reaches l f := .of_mem hd hin
        have hbody : ∃ a c, d.statement.fill (fun f => some (body f)) =
            a ++ .lparen :: (body f ++ .rparen :: c) := Statement.exists_fill_eq hin rfl
        obtain ⟨a, c, hac⟩ := hbody
        have hsmall := Nat.le_of_lt (Statement.length_lt_of_enclosed hac)
        refine Lands.fetch (stored f hin) ?_
        rcases ih f hin (stored f hin) (.inr (hall.mono hsmall)) hm with hok | ⟨e, he, hback⟩
        · exact .inl hok
        · rw [hname] at he hback
          exact .inr ⟨e, hname ▸ he, hback.of_reaches (hexp.not_reaches_self hd) hlf⟩
      rw [hexp.eq_fill_bodies fun f hf => hlisted.mem_nested.mpr hf] at hall
      rw [resolveFrom_fst hres hcyc]
      rcases inlineAll_lands hr hm hfetch hall with ⟨whole, hwhole⟩ | ⟨e, he, hback⟩
      · exact .inl ⟨_, by rw [hwhole, Except.map]⟩
      · exact .inr ⟨e, by rw [he, Except.map], hback⟩

theorem resolveFrom_ok (hr : r.registry.Compiled) {s : Statement} (h : r.registry.Expands d s)
    {l : Letter} {path : List Letter} (hd : r.registry.find? l = some d)
    (hsize : d.isResolved = true ∨ r.Allows s.length)
    (hpath : ∀ p ∈ path, p ≠ l ∧ ¬ r.registry.Reaches l p) (hm : r.Recalls m) :
    ∃ d', (r.resolveFrom path d m).1 = .ok d' := by
  rcases resolveFrom_lands hr h hd hsize hm with hok | ⟨e, -, q, p, -, hp, hreach, -⟩
  · exact hok
  · rcases hreach with rfl | hlp
    · exact absurd rfl (hpath p hp).1
    · exact absurd hlp (hpath p hp).2

/-! ### The outcome -/

variable {l : Letter}

/-- **A stored function is resolved to what its full expansion says**, whatever is
remembered from before and whoever waits for it, if nobody waits for it in vain. -/
theorem resolveFrom_eq_ok_iff (hr : r.registry.Compiled) {path : List Letter}
    (hd : r.registry.find? l = some d) (hpath : ∀ p ∈ path, p ≠ l ∧ ¬ r.registry.Reaches l p)
    (hm : r.Recalls m) : (r.resolveFrom path d m).1 = .ok d' ↔ r.Resolves d d' := by
  have hsound := ((yields hr).1 path d m (hr.listed hd) hm).1
  constructor
  · intro h
    exact hsound d' h
  · intro hex
    obtain ⟨s, hs, hsize, rfl⟩ := hex
    obtain ⟨d', hd'⟩ := resolveFrom_ok hr hs hd hsize hpath hm
    obtain ⟨t, ht, -, rfl⟩ := hsound d' hd'
    rw [hs.unique ht]
    exact hd'

theorem resolve_eq_ok_iff (hr : r.registry.Compiled) (hd : r.registry.find? l = some d)
    (hm : r.Recalls m) : (r.resolve d m).1 = .ok d' ↔ r.Resolves d d' :=
  resolveFrom_eq_ok_iff hr hd (by simp) hm

/-- What a resolved function reaches is resolved as well, and stands in parentheses in the
result. -/
theorem Resolves.of_reaches (hr : r.registry.Compiled) (hd : r.registry.find? l = some d)
    (h : r.Resolves d d') (hf : r.registry.Reaches l f) :
    ∃ df t a c, r.registry.find? f = some df ∧ r.registry.Expands df t ∧
      r.Resolves df (df.writtenOut t) ∧ d'.statement = a ++ .lparen :: (t ++ .rparen :: c) := by
  obtain ⟨s, hs, hsize, rfl⟩ := h
  obtain ⟨df, t, a, c, hdf, ht, hat⟩ := hs.of_reaches hd hf
  have hall : r.Allows s.length := by
    rcases hsize with hres | hall
    · obtain ⟨g, hg⟩ := hf.exists_ref hd
      exact absurd hg ((hr.listed hd).isResolved_iff.mp hres g)
    · exact hall
  have hsmall := Nat.le_of_lt (Statement.length_lt_of_enclosed hat)
  exact ⟨df, t, a, c, hdf, ht, ⟨t, ht, .inr (hall.mono hsmall), rfl⟩, hat⟩

/-- **The exact outcome of a fresh resolution.**  A stored function is resolved exactly if
everything that it reaches is stored, nothing of that nor itself lies on a cycle, and it
refers to nothing or its one full expansion keeps to the limit; the result is then the
definition written out to that expansion. -/
theorem resolve_outcome (hr : r.registry.Compiled) (hlimit : r.limit < maxCount)
    (hd : r.registry.find? l = some d) :
    ((∃ d', (r.resolve d ∅).1 = .ok d') ↔
      (∀ f, r.registry.Reaches l f → ∃ df, r.registry.find? f = some df) ∧
      (∀ f, f = l ∨ r.registry.Reaches l f → ¬ r.registry.Reaches f f) ∧
      ((∀ f, .ref f ∉ d.statement) ∨
        ∃ s, r.registry.Expands d s ∧ s.length ≤ r.limit)) ∧
    ((∀ f, r.registry.Reaches l f → ∃ df, r.registry.find? f = some df) →
      (∀ f, f = l ∨ r.registry.Reaches l f → ¬ r.registry.Reaches f f) →
      ∃ s, r.registry.Expands d s ∧ ∀ t, r.registry.Expands d t → t = s) ∧
    ∀ d', (r.resolve d ∅).1 = .ok d' →
      r.registry.Expands d d'.statement ∧
      (∀ v, v ∈ d'.vars ↔ ∃ f df, (f = l ∨ r.registry.Reaches l f) ∧
        r.registry.find? f = some df ∧ .var v ∈ df.statement) ∧
      d'.nested = ∅ ∧ d'.name = d.name ∧ d'.expression = d.expression := by
  have hiff : ∀ d', (r.resolve d ∅).1 = .ok d' ↔ r.Resolves d d' :=
    fun d' => resolve_eq_ok_iff hr hd recalls_empty
  refine ⟨⟨?_, ?_⟩, ?_, ?_⟩
  · intro hex
    obtain ⟨d', hd'⟩ := hex
    obtain ⟨s, hs, hsize, -⟩ := (hiff d').mp hd'
    refine ⟨(hs.closed hd).1, (hs.closed hd).2, ?_⟩
    rcases hsize with hres | hall
    · exact .inl ((hr.listed hd).isResolved_iff.mp hres)
    · exact .inr ⟨s, hs, (allows_iff hlimit).mp hall⟩
  · intro hex
    obtain ⟨hstored, hacyclic, hsize⟩ := hex
    obtain ⟨s, hs⟩ := Registry.exists_expands hd hstored hacyclic
    refine ⟨_, (hiff _).mpr ⟨s, hs, ?_, rfl⟩⟩
    rcases hsize with hnone | ⟨t, ht, hlen⟩
    · exact .inl ((hr.listed hd).isResolved_iff.mpr hnone)
    · rw [hs.unique ht]
      exact .inr ((allows_iff hlimit).mpr hlen)
  · intro hstored hacyclic
    obtain ⟨s, hs⟩ := Registry.exists_expands hd hstored hacyclic
    exact ⟨s, hs, fun t ht => ht.unique hs⟩
  · intro d' hd'
    obtain ⟨s, hs, -, rfl⟩ := (hiff d').mp hd'
    refine ⟨hs, ?_, rfl, rfl, rfl⟩
    intro v
    rw [← hs.var_mem_iff hd]
    exact Statement.mem_vars

end

end Resolver

/-! ### An example -/

namespace Letter

/-- The variable `a` of the examples. -/
def a : Letter := ⟨'a', rfl⟩

/-- The variable `b` of the examples. -/
def b : Letter := ⟨'b', rfl⟩

/-- The name of the first function of an example. -/
def f : Letter := ⟨'f', rfl⟩

/-- The name of the function that refers to the first. -/
def g : Letter := ⟨'g', rfl⟩

end Letter

namespace Resolver

/-- The function `f = a+b`. -/
def inner : Definition where
  name := .f
  expression := "a+b"
  statement := [.var .a, .op .or, .var .b]
  vars := .ofList [.a, .b]
  nested := ∅

/-- The function `g = a*!$f+b*$f`. -/
def outer : Definition where
  name := .g
  expression := "a*!$f+b*$f"
  statement := [.var .a, .op .and, .not, .ref .f, .op .or, .var .b, .op .and, .ref .f]
  vars := .ofList [.a, .b]
  nested := .ofList [.f]

/-- A registry with a function and one that refers to it twice. -/
def twice : Registry :=
  (Registry.define ∅ inner).define outer

theorem compiled_twice : twice.Compiled := by
  have hinner : Definition.compile 'f' "a+b" = .ok inner := rfl
  have houter : Definition.compile 'g' "a*!$f+b*$f" = .ok outer := rfl
  exact (Registry.compiled_empty.define hinner).define houter

/-- The expansion of `g` is `a*!(a+b)+b*(a+b)`. -/
theorem expands_outer :
    twice.Expands outer (outer.statement.fill fun _ => some inner.statement) := by
  have hinner : twice.find? .f = some inner := rfl
  exact .of_single hinner (by simp [outer]) (by simp [inner])

theorem resolve_outer : (resolve ⟨twice, 16⟩ outer ∅).1 =
    .ok (outer.writtenOut (outer.statement.fill fun _ => some inner.statement)) := by
  have hd : twice.find? outer.name = some outer := rfl
  refine (resolve_eq_ok_iff compiled_twice hd recalls_empty).mpr ⟨_, expands_outer, .inr ?_, rfl⟩
  unfold Allows
  decide

/-- Sixteen tokens are as many as `g` needs, and one less is too few. -/
theorem resolve_outcome_twice : twice.Compiled ∧ twice.find? outer.name = some outer ∧
    16 < maxCount ∧ (∃ d', (resolve ⟨twice, 16⟩ outer ∅).1 = .ok d') ∧
    ¬ ∃ d', (resolve ⟨twice, 15⟩ outer ∅).1 = .ok d' := by
  have hd : twice.find? outer.name = some outer := rfl
  have hs := expands_outer
  refine ⟨compiled_twice, hd, by decide, ?_, ?_⟩
  · exact (resolve_outcome compiled_twice (by decide) hd).1.mpr
      ⟨(hs.closed hd).1, (hs.closed hd).2, .inr ⟨_, hs, by decide⟩⟩
  · intro h
    obtain ⟨-, -, hsmall⟩ := (resolve_outcome compiled_twice (by decide) hd).1.mp h
    rcases hsmall with hnone | ⟨t, ht, hlen⟩
    · exact hnone inner.name (by decide)
    · rw [← hs.unique ht] at hlen
      exact absurd hlen (by decide)

end Resolver

end Switching
