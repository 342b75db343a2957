/-
One resolver for many requests.

A resolver remembers the functions that it resolved through a reference, by their names
alone, and a look into its memory is not a step along the path.  For stored functions this
changes nothing.  A definition that is not stored may have the name of a stored function,
and then the two are not told apart: while it is resolved its name stands on the path, and
references to the stored function of that name are refused as a cycle, but only if they are
followed.  If the stored function is remembered they are not.

So a reused resolver differs from a fresh one in exactly one way: where the fresh one comes
back to the name that was asked for, and that name is remembered, the reused one goes on.

What is shown for this, of a definition with the name `x`, is that the two runs are alike
step by step up to such a place.  A function found in one memory only has been resolved
before, so resolving it now can only be refused for a name that waits for it in vain.  All
who wait lead on to it, and it lies on no cycle, so the name is `x`.  A memory is closed
under references, so it then holds `x` as well; and while `x` waits, no memory gains it.
-/
import Switching.Proofs.Canonical
import Switching.Proofs.Locality
import Switching.Proofs.Refusals

namespace Switching

namespace Memory

/-- Some function is remembered under the name. -/
def Known (m : Memory) (f : Letter) : Prop :=
  ∃ d, m.find? f = some d

variable {m : Memory} {f g : Letter} {d : Definition}

theorem known_remember_iff : (m.remember f d).Known g ↔ g = f ∨ m.Known g := by
  unfold Known find? remember
  rw [List.lookup_cons]
  by_cases h : g = f
  · simp [h]
  · simp [h, beq_eq_false_iff_ne.mpr h]

theorem not_known_of_eq_none (h : m.find? f = none) : ¬ m.Known f := by
  rintro ⟨d, hd⟩
  rw [h] at hd
  cases hd

end Memory

namespace Resolver

section

variable {r : Resolver} {d d' : Definition} {f g l x : Letter} {m m' : Memory}
  {path : List Letter} {out fresh : Except Error Definition}

/-! ### What a memory holds -/

/-- With a function everything that it refers to is remembered. -/
def Closed (r : Resolver) (m : Memory) : Prop :=
  ∀ f g, m.Known f → r.registry.Refers f g → m.Known g

theorem closed_empty : r.Closed ∅ := by
  rintro f g ⟨d, hd⟩
  cases hd

theorem Closed.of_reaches (h : r.Closed m) (hf : m.Known f) (hfg : r.registry.Reaches f g) :
    m.Known g := by
  induction hfg with
  | single hg => exact h _ _ hf hg
  | tail _ hg ih => exact h _ _ ih hg

/-- A step keeps what is remembered and keeps it closed, and if it succeeds then all the names
that it had to look up are remembered. -/
structure Learns (r : Resolver) (names : List Letter) (m : Memory)
    (out : Except Error Definition × Memory) : Prop where
  /-- Nothing is forgotten. -/
  kept : ∀ f, m.Known f → out.2.Known f
  /-- What is remembered stays closed. -/
  closed : r.Closed m → r.Closed out.2
  /-- What was looked up is remembered. -/
  learnt : ∀ d, out.1 = .ok d → ∀ f ∈ names, out.2.Known f

theorem learns_self (h : ∀ d, out = .ok d → ∀ f ∈ path, m.Known f) : r.Learns path m (out, m) :=
  ⟨fun _ hf => hf, fun hm => hm, h⟩

/-- A step that is refused in the end has learnt nothing that it must have. -/
theorem Learns.refused {names names' : List Letter} (h : r.Learns names m (out, m')) (e : Error) :
    r.Learns names' m (.error e, m') := by
  refine ⟨h.kept, h.closed, fun d hd => ?_⟩
  cases hd

theorem learns_of_refused {names : List Letter} {e : Error} : r.Learns names m (.error e, m) := by
  refine learns_self fun d hd => ?_
  cases hd

/-- **Each of the three functions only adds to a memory, and keeps it closed.** -/
theorem learns (hr : r.registry.Compiled) :
    (∀ path (d : Definition) m, r.Learns d.nested.letters m (r.resolveFrom path d m)) ∧
    (∀ path d targets m, r.Learns targets m (r.inlineAll path d targets m)) ∧
    (∀ path g f m, r.Learns [f] m (r.fetch path g f m)) := by
  refine r.run_induct (P := fun _ d m out => r.Learns d.nested.letters m out)
    (Q := fun _ _ targets m out => r.Learns targets m out)
    (R := fun _ _ f m out => r.Learns [f] m out)
    ?resolved ?cyclic ?refused ?done ?nil ?unfetched ?large ?inlined ?known ?missing ?failed
    ?fetched
  case resolved =>
    intro path d m hres
    refine learns_self fun d' _ f hf => ?_
    have hnone : d.nested.letters = [] := List.isEmpty_iff.mp hres
    rw [hnone] at hf
    cases hf
  case cyclic =>
    intro path d m _ _
    exact learns_of_refused
  case refused =>
    intro path d m _ _ e m' _ ih
    exact ih.refused e
  case done =>
    intro path d m _ _ whole m' _ ih
    exact ⟨ih.kept, ih.closed, fun _ _ => ih.learnt whole rfl⟩
  case nil =>
    intro path d m
    refine learns_self fun _ _ f hf => ?_
    cases hf
  case unfetched =>
    intro path d m f targets e m' _ ih
    exact ih.refused e
  case large =>
    intro path d m f targets body m' _ e _ ih
    exact ih.refused e
  case inlined =>
    intro path d m f targets body m' _ c _ ih ihrest
    refine ⟨fun g hg => ihrest.kept g (ih.kept g hg), fun hm => ihrest.closed (ih.closed hm), ?_⟩
    intro d' hd' g hg
    rcases List.mem_cons.mp hg with rfl | hg
    · exact ihrest.kept g (ih.learnt body rfl g (List.mem_singleton_self g))
    · exact ihrest.learnt d' hd' g hg
  case known =>
    intro path g f m done hknown
    refine learns_self fun d _ l hl => ?_
    rw [List.mem_singleton.mp hl]
    exact ⟨done, hknown⟩
  case missing =>
    intro path g f m _ _
    exact learns_of_refused
  case failed =>
    intro path g f m _ stored _ e m' _ ih
    exact ih.refused e
  case fetched =>
    intro path g f m _ stored hstored done m' _ ih
    refine ⟨fun l hl => Memory.known_remember_iff.mpr (.inr (ih.kept l hl)), ?_, ?_⟩
    · intro hm l h hl hlh
      rw [Memory.known_remember_iff] at hl ⊢
      rcases hl with rfl | hl
      · -- what the function refers to was looked up to resolve it
        obtain ⟨d, hd, hh⟩ := hlh
        rw [hstored, Option.some.injEq] at hd
        subst hd
        exact .inr (ih.learnt done rfl h ((hr.listed hstored).mem_nested.mpr hh))
      · exact .inr (ih.closed hm l h hl hlh)
    · intro d _ l hl
      rw [List.mem_singleton.mp hl]
      exact Memory.known_remember_iff.mpr (.inl rfl)

theorem Served.closed (hr : r.registry.Compiled) (h : r.Served m) : r.Closed m := by
  induction h with
  | nothing => exact closed_empty
  | resolve _ _ ih => exact ((learns hr).1 [] _ _).closed ih

/-! ### The name that was asked for -/

/-- References to `x` are answered from the memory where following them would come to a
function that has to be resolved. -/
def Skips (r : Resolver) (x : Letter) (m : Memory) : Prop :=
  m.Known x ∧ ∃ d, r.registry.find? x = some d ∧ d.isResolved = false

theorem not_skips_empty : ¬ r.Skips x ∅ := by
  rintro ⟨⟨d, hd⟩, -⟩
  cases hd

/-- **No memory gains a name that waits.** -/
theorem skips_of_skips (hr : r.registry.Compiled) :
    (∀ path (d : Definition) m, x ∈ path → r.Skips x (r.resolveFrom path d m).2 → r.Skips x m) ∧
    (∀ path d targets m, x ∈ path → r.Skips x (r.inlineAll path d targets m).2 → r.Skips x m) ∧
    (∀ path g f m, x ∈ path → r.Skips x (r.fetch path g f m).2 → r.Skips x m) := by
  refine r.run_induct (P := fun path _ m out => x ∈ path → r.Skips x out.2 → r.Skips x m)
    (Q := fun path _ _ m out => x ∈ path → r.Skips x out.2 → r.Skips x m)
    (R := fun path _ _ m out => x ∈ path → r.Skips x out.2 → r.Skips x m)
    ?resolved ?cyclic ?refused ?done ?nil ?unfetched ?large ?inlined ?known ?missing ?failed
    ?fetched
  case resolved | cyclic | nil | known | missing =>
    intros
    assumption
  case refused | done =>
    intro path d m _ _ _ m' _ ih hx hs
    exact ih (List.mem_append_left _ hx) hs
  case unfetched =>
    intro path d m f targets e m' _ ih hx hs
    exact ih hx hs
  case large =>
    intro path d m f targets body m' _ e _ ih hx hs
    exact ih hx hs
  case inlined =>
    intro path d m f targets body m' _ c _ ih ihrest hx hs
    exact ih hx (ihrest hx hs)
  case failed =>
    intro path g f m _ stored _ e m' _ ih hx hs
    exact ih hx hs
  case fetched =>
    rintro path g f m _ stored hstored done m' hrun ih hx ⟨hknown, d, hd, hres⟩
    rcases Memory.known_remember_iff.mp hknown with rfl | hknown
    · -- a name that waits is not resolved to anything
      rw [hstored, Option.some.injEq] at hd
      subst hd
      have hcyc : stored.name ∈ path := by rwa [hr.name_eq hstored]
      rw [resolveFrom_of_mem_path (by rw [hres]; decide) hcyc] at hrun
      cases hrun
    · exact ih hx ⟨hknown, d, hd, hres⟩

/-- The refusal is a cycle back to `x`. -/
def BackTo (x : Letter) (out : Except Error Definition) : Prop :=
  ∃ q, out = .error (.cyclicReference (q ++ [x]))

theorem BackTo.of_map {k : Definition → Definition} (h : BackTo x (out.map k)) : BackTo x out := by
  obtain ⟨q, hq⟩ := h
  exact ⟨q, eq_error_of_map_eq_error hq⟩

theorem not_backTo_ok : ¬ BackTo x (.ok d) := by
  rintro ⟨q, hq⟩
  cases hq

/-- **No reference leads back to a name that is remembered.** -/
theorem not_backTo_of_known (hr : r.registry.Compiled) :
    (∀ path (d : Definition) m, d.name ≠ x → m.Known x →
      ¬ BackTo x (r.resolveFrom path d m).1) ∧
    (∀ path d targets m, m.Known x → ¬ BackTo x (r.inlineAll path d targets m).1) ∧
    (∀ path g f m, m.Known x → ¬ BackTo x (r.fetch path g f m).1) := by
  refine r.run_induct (P := fun _ d m out => d.name ≠ x → m.Known x → ¬ BackTo x out.1)
    (Q := fun _ _ _ m out => m.Known x → ¬ BackTo x out.1)
    (R := fun _ _ _ m out => m.Known x → ¬ BackTo x out.1)
    ?resolved ?cyclic ?refused ?done ?nil ?unfetched ?large ?inlined ?known ?missing ?failed
    ?fetched
  case resolved =>
    intro path d m _ _ _
    exact not_backTo_ok
  case cyclic =>
    rintro path d m _ _ hne _ ⟨q, hq⟩
    rw [Except.error.injEq, Error.cyclicReference.injEq] at hq
    exact hne (List.singleton_inj.mp (List.append_inj' hq rfl).2)
  case refused =>
    intro path d m _ _ e m' _ ih _ hx
    exact ih hx
  case done =>
    intro path d m _ _ whole m' _ _ _ _
    exact not_backTo_ok
  case nil =>
    intro path d m _
    exact not_backTo_ok
  case unfetched =>
    intro path d m f targets e m' _ ih hx
    exact ih hx
  case large =>
    rintro path d m f targets body m' _ e hstep _ _ ⟨q, hq⟩
    obtain ⟨-, rfl⟩ := Definition.inline_eq_error hstep
    cases hq
  case inlined =>
    intro path d m f targets body m' hrun c _ _ ihrest hx
    have hkept := ((learns hr).2.2 path d.name f m).kept x hx
    rw [hrun] at hkept
    exact ihrest hkept
  case known =>
    intro path g f m done _ _
    exact not_backTo_ok
  case missing =>
    rintro path g f m _ _ _ ⟨q, hq⟩
    cases hq
  case failed =>
    intro path g f m hunknown stored hstored e m' _ ih hx
    refine ih ?_ hx
    rw [hr.name_eq hstored]
    rintro rfl
    exact Memory.not_known_of_eq_none hunknown hx
  case fetched =>
    intro path g f m _ stored _ done m' _ _ _
    exact not_backTo_ok

/-! ### Two runs side by side -/

/-- All who wait lead on to `l`, but for `x`. -/
def LeadsBut (r : Resolver) (x : Letter) (path : List Letter) (l : Letter) : Prop :=
  ∀ p ∈ path, p = x ∨ r.registry.Reaches p l

theorem LeadsBut.step (h : r.LeadsBut x path l) (hlf : r.registry.Reaches l f) :
    r.LeadsBut x (path ++ [l]) f := by
  intro p hp
  rcases List.mem_append.mp hp with hp | hp
  · rcases h p hp with rfl | hpl
    · exact .inl rfl
    · exact .inr (hpl.trans hlf)
  · rw [List.mem_singleton.mp hp]
    exact .inr hlf

/-- What is resolved once is resolved again, unless it leads back to `x` and nothing else of
that name is known. -/
theorem ResolvesTo.resolveFrom_cases (hr : r.registry.Compiled) (hf : r.ResolvesTo f d')
    (hd : r.registry.find? f = some d) (hpath : r.LeadsBut x path f) (hm : r.Recalls m) :
    (r.resolveFrom path d m).1 = .ok d' ∨
      BackTo x (r.resolveFrom path d m).1 ∧ ∀ m', r.Closed m' → m'.Known f → r.Skips x m' := by
  obtain ⟨stored, hstored, s, hs, hsize, rfl⟩ := hf
  rw [hd, Option.some.injEq] at hstored
  subst hstored
  rcases resolveFrom_lands hr hs hd hsize hm with ⟨d', hd'⟩ | ⟨e, he, q, p, rfl, hp, hback, hfun⟩
  · obtain ⟨t, ht, -, rfl⟩ := ((yields hr).1 path d m (hr.listed hd) hm).1 d' hd'
    rw [hs.unique ht]
    exact .inl hd'
  · -- all others who wait lead on to `f`, and from `f` back to them there is no way
    have hpx : p = x := by
      refine (hpath p hp).resolve_right fun hpf => ?_
      rcases hback with rfl | hfp
      · exact hs.not_reaches_self hd hpf
      · exact hs.not_reaches_self hd (hfp.trans hpf)
    subst hpx
    refine .inr ⟨⟨q, he⟩, fun m' hclosed hknown => ⟨?_, hfun⟩⟩
    rcases hback with rfl | hfp
    · exact hknown
    · exact hclosed.of_reaches hknown hfp

/-- All that is remembered is right, and what it refers to is remembered as well. -/
structure Sound (r : Resolver) (m : Memory) : Prop where
  /-- What is remembered is what its name comes to. -/
  recalls : r.Recalls m
  /-- What it refers to is remembered. -/
  closed : r.Closed m

theorem sound_empty : r.Sound ∅ :=
  ⟨recalls_empty, closed_empty⟩

theorem Sound.fetch (hr : r.registry.Compiled) (hm : r.Sound m) (path : List Letter)
    (g f : Letter) : r.Sound (r.fetch path g f m).2 :=
  ⟨((yields hr).2.2 path g f m hm.recalls).2, ((learns hr).2.2 path g f m).closed hm.closed⟩

theorem Served.sound (hr : r.registry.Compiled) (h : r.Served m) : r.Sound m :=
  ⟨h.recalls hr, h.closed hr⟩

/-- The outcome is the fresh one, or that is a cycle back to `x` and the memory skips it. -/
def Matches (r : Resolver) (x : Letter) (m : Memory) (fresh out : Except Error Definition) :
    Prop :=
  out = fresh ∨ r.Skips x m ∧ BackTo x fresh

theorem Matches.map {k : Definition → Definition} (h : r.Matches x m fresh out) :
    r.Matches x m (fresh.map k) (out.map k) := by
  rcases h with rfl | ⟨hskips, q, rfl⟩
  · exact .inl rfl
  · exact .inr ⟨hskips, q, rfl⟩

/-- If the fresh step is refused, then so is what it is a step of. -/
theorem Matches.bind_error {e : Error} {k : Definition → Except Error Definition}
    (h : r.Matches x m (.error e) out) : r.Matches x m (.error e) (out.bind k) := by
  rcases h with rfl | h
  · exact .inl rfl
  · exact .inr h

theorem Matches.eq_ok (h : r.Matches x m (.ok d) out) : out = .ok d := by
  rcases h with h | ⟨-, q, hq⟩
  · exact h
  · cases hq

theorem fetch_fst_of_known (hknown : m.find? f = some d) : (r.fetch path g f m).1 = .ok d := by
  rw [fetch_of_known hknown]

/-- **Two runs with sound memories match** while `x` waits, if the first does not skip `x`. -/
theorem matches_fresh (hr : r.registry.Compiled) :
    (∀ path (d : Definition) m, ∀ l m', r.registry.find? l = some d → x ∈ path →
      r.LeadsBut x path l → r.Sound m → ¬ r.Skips x m → r.Sound m' →
      r.Matches x m' (r.resolveFrom path d m).1 (r.resolveFrom path d m').1) ∧
    (∀ path d targets m, ∀ m', x ∈ path → (∀ f ∈ targets, r.LeadsBut x path f) →
      r.Sound m → ¬ r.Skips x m → r.Sound m' →
      r.Matches x m' (r.inlineAll path d targets m).1 (r.inlineAll path d targets m').1) ∧
    (∀ path g f m, ∀ m', x ∈ path → r.LeadsBut x path f →
      r.Sound m → ¬ r.Skips x m → r.Sound m' →
      r.Matches x m' (r.fetch path g f m).1 (r.fetch path g f m').1) := by
  refine resolveFrom.mutual_induct r _ _ _ ?resolved ?cyclic ?refused ?done ?nil ?unfetched
    ?large ?inlined ?known ?missing ?failed ?fetched
  case resolved =>
    intro path d m hres l m' _ _ _ _ _ _
    rw [resolveFrom_of_isResolved hres, resolveFrom_of_isResolved hres]
    exact .inl rfl
  case cyclic =>
    intro path d m hres hcyc l m' _ _ _ _ _ _
    rw [resolveFrom_of_mem_path hres hcyc, resolveFrom_of_mem_path hres hcyc]
    exact .inl rfl
  case refused | done =>
    intro path d m hres hcyc _ _ _ ih l m' hd hx hpath hm hskips hm'
    rw [resolveFrom_fst hres hcyc, resolveFrom_fst hres hcyc]
    refine (ih m' (List.mem_append_left _ hx) ?_ hm hskips hm').map
    intro f hf
    rw [hr.name_eq hd]
    exact hpath.step (.of_mem hd ((hr.listed hd).mem_nested.mp hf))
  case nil =>
    intro path d m m' _ _ _ _ _
    rw [inlineAll_nil, inlineAll_nil]
    exact .inl rfl
  case unfetched =>
    intro path d m f targets e m₁ hrun ih m' hx hpath hm hskips hm'
    have hfetch := ih m' hx (hpath f (List.mem_cons_self ..)) hm hskips hm'
    rw [hrun] at hfetch
    rw [inlineAll_cons_fst, inlineAll_cons_fst, hrun]
    exact hfetch.bind_error
  case large =>
    intro path d m f targets body m₁ hrun e hstep ih m' hx hpath hm hskips hm'
    have hfetch := ih m' hx (hpath f (List.mem_cons_self ..)) hm hskips hm'
    rw [hrun] at hfetch
    rw [inlineAll_cons_fst, inlineAll_cons_fst, hrun, hfetch.eq_ok, Except.bind, Except.bind,
      hstep]
    exact .inl rfl
  case inlined =>
    intro path d m f targets body m₁ hrun c hstep ih ihrest m' hx hpath hm hskips hm'
    have hfetch := ih m' hx (hpath f (List.mem_cons_self ..)) hm hskips hm'
    have hm₁ := hm.fetch hr path d.name f
    have hskips₁ := mt ((skips_of_skips hr).2.2 path d.name f m hx) hskips
    rw [hrun] at hfetch hm₁ hskips₁
    have hrest := ihrest (r.fetch path d.name f m').2 hx
      (fun g hg => hpath g (List.mem_cons_of_mem _ hg)) hm₁ hskips₁ (hm'.fetch hr path d.name f)
    rw [inlineAll_cons_fst, inlineAll_cons_fst, hrun, hfetch.eq_ok, Except.bind, Except.bind,
      hstep]
    rcases hrest with hrest | ⟨hlater, hback⟩
    · exact .inl hrest
    · exact .inr ⟨(skips_of_skips hr).2.2 path d.name f m' hx hlater, hback⟩
  case known =>
    intro path g f m done hknown m' hx hpath hm hskips hm'
    have hdone := hm.recalls f done hknown
    rw [fetch_fst_of_known hknown]
    cases hother : m'.find? f with
    | some done' =>
        rw [fetch_fst_of_known hother, hdone.unique (hm'.recalls f done' hother)]
        exact .inl rfl
    | none =>
        obtain ⟨stored, hstored, -⟩ := id hdone
        rw [fetch_fst_of_unknown hother hstored]
        rcases hdone.resolveFrom_cases hr hstored hpath hm'.recalls with hok | ⟨-, hback⟩
        · exact .inl hok
        · exact absurd (hback m hm.closed ⟨done, hknown⟩) hskips
  case missing =>
    intro path g f m hunknown hmissing m' hx hpath hm hskips hm'
    cases hother : m'.find? f with
    | some done =>
        obtain ⟨stored, hstored, -⟩ := hm'.recalls f done hother
        rw [hmissing] at hstored
        cases hstored
    | none =>
        rw [fetch_of_missing hunknown hmissing, fetch_of_missing hother hmissing]
        exact .inl rfl
  case failed | fetched =>
    intro path g f m hunknown stored hstored _ _ _ ih m' hx hpath hm hskips hm'
    rw [fetch_fst_of_unknown hunknown hstored]
    cases hother : m'.find? f with
    | some done =>
        have hdone := hm'.recalls f done hother
        rw [fetch_fst_of_known hother]
        rcases hdone.resolveFrom_cases hr hstored hpath hm.recalls with hok | ⟨hback, hskip⟩
        · exact .inl hok.symm
        · exact .inr ⟨hskip m' hm'.closed ⟨done, hother⟩, hback⟩
    | none =>
        rw [fetch_fst_of_unknown hother hstored]
        exact ih f m' hstored hx hpath hm hskips hm'

/-! ### One request of many -/

/-- **A resolver that has been used answers as a fresh one, but for one case.**  Whatever it
was asked for before, a stored function is resolved, or refused, as if it were the first; and
a definition that is not stored is so too, unless a function is remembered under its name and
the fresh resolver comes back to that name. -/
theorem resolve_served_eq_iff (hr : r.registry.Compiled) (hm : r.Served m) :
    (r.registry.find? d.name = some d → (r.resolve d m).1 = (r.resolve d ∅).1) ∧
    ((r.resolve d m).1 = (r.resolve d ∅).1 ↔
      ¬ ((∃ d', m.find? d.name = some d') ∧
        ∃ path, (r.resolve d ∅).1 = .error (.cyclicReference (path ++ [d.name])))) := by
  refine ⟨fun hstored => resolve_fst_eq hr hstored (hm.recalls hr), ?_⟩
  by_cases hres : d.isResolved = true
  · rw [resolve, resolve, resolveFrom_of_isResolved hres, resolveFrom_of_isResolved hres]
    simp
  · have hloop : ∀ m, (r.resolve d m).1 = (r.inlineAll [d.name] d d.nested.letters m).1.map
        fun whole => { whole with nested := ∅ } :=
      fun m => resolveFrom_fst hres List.not_mem_nil
    have hmatch := (matches_fresh hr).2.1 [d.name] d d.nested.letters ∅ m
      (List.mem_singleton_self _) (fun _ _ p hp => .inl (List.mem_singleton.mp hp))
      sound_empty not_skips_empty (hm.sound hr)
    rw [hloop m, hloop ∅]
    constructor
    · rintro hsame ⟨hknown, hback⟩
      have hreused : BackTo d.name (r.inlineAll [d.name] d d.nested.letters m).1 := by
        rw [← hsame] at hback
        exact BackTo.of_map hback
      exact (not_backTo_of_known hr).2.1 _ _ _ m hknown hreused
    · intro hnot
      rcases hmatch.map with hsame | ⟨⟨hknown, -⟩, hback⟩
      · exact hsame
      · exact absurd ⟨hknown, hback⟩ hnot

end

/-- What was asked for before makes no difference to the stored function `g`. -/
theorem resolve_served_eq_iff_outer :
    twice.Compiled ∧
    Served ⟨twice, defaultLimit⟩ (resolve ⟨twice, defaultLimit⟩ Session.bystander ∅).2 ∧
    (resolve ⟨twice, defaultLimit⟩ outer
      (resolve ⟨twice, defaultLimit⟩ Session.bystander ∅).2).1 =
        (resolve ⟨twice, defaultLimit⟩ outer ∅).1 := by
  have hbystander : Session.bystander.IsCompiled := ⟨'a', "$g", rfl⟩
  have hserved := Served.nothing.resolve (r := ⟨twice, defaultLimit⟩) hbystander
  exact ⟨compiled_twice, hserved, (resolve_served_eq_iff compiled_twice hserved).1 rfl⟩

/-- The function `g = $g`, which has the name of a stored function. -/
def usurper : Definition where
  name := .g
  expression := "$g"
  statement := [.ref .g]
  vars := ∅
  nested := .ofList [.g]

/-- Resolving `a = $g` leaves the stored `g` in the memory. -/
theorem find?_of_bystander :
    (resolve ⟨twice, defaultLimit⟩ Session.bystander ∅).2.find? .g =
      some (outer.writtenOut (outer.statement.fill fun _ => some inner.statement)) := by
  have hstored : twice.find? .g = some outer := rfl
  have hunknown : (∅ : Memory).find? .g = none := rfl
  have hletters : Session.bystander.nested.letters = [.g] := rfl
  have hpath : [] ++ [Session.bystander.name] = [Letter.a] := rfl
  have hclear : ∀ p ∈ [Letter.a], p ≠ .g ∧ ¬ twice.Reaches .g p := by
    intro p hp
    rw [List.mem_singleton.mp hp]
    refine ⟨by decide, fun hreach => ?_⟩
    obtain ⟨d, hd⟩ := (expands_outer.closed hstored).1 .a hreach
    cases hd
  have houter : (resolveFrom ⟨twice, defaultLimit⟩ [.a] outer ∅).1 =
      .ok (outer.writtenOut (outer.statement.fill fun _ => some inner.statement)) := by
    refine (resolveFrom_eq_ok_iff compiled_twice hstored hclear recalls_empty).mpr
      ⟨_, expands_outer, .inr ?_, rfl⟩
    unfold Allows
    decide
  rw [resolve, resolveFrom, if_neg (by decide), if_neg (by simp), hletters, hpath]
  cases hrun : resolveFrom ⟨twice, defaultLimit⟩ [.a] outer ∅ with
  | mk out m =>
      rw [hrun] at houter
      obtain rfl := houter
      simp only [inlineAll, fetch, hunknown, hstored, hrun]
      rfl

/-- A fresh resolver refuses `g = $g` for the cycle, and one that has been asked for `a = $g`
takes it for a reference to the stored `g`. -/
theorem resolve_usurper_reused :
    twice.Compiled ∧ Session.bystander.IsCompiled ∧ usurper.IsCompiled ∧
    (resolve ⟨twice, defaultLimit⟩ usurper ∅).1 = .error (.cyclicReference [.g, .g]) ∧
    (resolve ⟨twice, defaultLimit⟩ usurper
      (resolve ⟨twice, defaultLimit⟩ Session.bystander ∅).2).1.map Definition.statement =
        .ok (.lparen :: (outer.statement.substitute .f inner.statement ++ [.rparen])) := by
  have hletters : usurper.nested.letters = [.g] := rfl
  have hpath : [] ++ [usurper.name] = [Letter.g] := rfl
  refine ⟨compiled_twice, ⟨'a', "$g", rfl⟩, ⟨'g', "$g", rfl⟩, ?_, ?_⟩
  · have hstored : twice.find? .g = some outer := rfl
    have hunknown : (∅ : Memory).find? .g = none := rfl
    have hcyclic : resolveFrom ⟨twice, defaultLimit⟩ [.g] outer ∅ =
        (.error (.cyclicReference [.g, .g]), ∅) := by
      rw [resolveFrom, if_neg (by decide), if_pos (by decide)]
      rfl
    rw [resolve, resolveFrom, if_neg (by decide), if_neg (by simp), hletters, hpath]
    simp only [inlineAll, fetch, hunknown, hstored, hcyclic]
  · rw [resolve, resolveFrom_fst (by decide) (by simp), hletters, hpath]
    simp only [inlineAll, fetch, find?_of_bystander]
    rfl

end Resolver

end Switching
