/-
Runs of the resolver.

Resolution is three functions that call one another, and between them they have twelve
branches.  What each of the branches does is said here, once: first as an equation, then as
one case of an induction along a run, in which it is shown of whatever the functions answer
and leave in the memory.  So a fact about all runs is twelve facts about single steps, and
none of them opens the functions again.
-/
import Switching.Resolution

namespace Switching.Resolver

/-! ### The branches -/

section

variable {r : Resolver} {path targets : List Letter} {d c body whole done : Definition}
  {f g : Letter} {m m' : Memory} {e : Error}

/-- What is resolved already is given back as it is. -/
theorem resolveFrom_of_isResolved (h : d.isResolved = true) :
    r.resolveFrom path d m = (.ok d, m) := by
  rw [resolveFrom, if_pos h]

/-- A name that waits is not waited for. -/
theorem resolveFrom_of_mem_path (hres : ¬ d.isResolved = true) (hcyc : d.name ∈ path) :
    r.resolveFrom path d m = (.error (.cyclicReference (path ++ [d.name])), m) := by
  rw [resolveFrom, if_neg hres, if_pos hcyc]

theorem resolveFrom_of_refused (hres : ¬ d.isResolved = true) (hfresh : d.name ∉ path)
    (h : r.inlineAll (path ++ [d.name]) d d.nested.letters m = (.error e, m')) :
    r.resolveFrom path d m = (.error e, m') := by
  rw [resolveFrom, if_neg hres, if_neg hfresh, h]

theorem resolveFrom_of_done (hres : ¬ d.isResolved = true) (hfresh : d.name ∉ path)
    (h : r.inlineAll (path ++ [d.name]) d d.nested.letters m = (.ok whole, m')) :
    r.resolveFrom path d m =
      (.ok { whole with nested := ∅ }, m'.note { whole with nested := ∅ }) := by
  rw [resolveFrom, if_neg hres, if_neg hfresh, h]

theorem inlineAll_nil : r.inlineAll path d [] m = (.ok d, m) := by
  rw [inlineAll]

theorem inlineAll_of_unfetched (h : r.fetch path d.name f m = (.error e, m')) :
    r.inlineAll path d (f :: targets) m = (.error e, m') := by
  rw [inlineAll, h]

theorem inlineAll_of_large (h : r.fetch path d.name f m = (.ok body, m'))
    (hstep : d.inline r.limit f body = .error e) :
    r.inlineAll path d (f :: targets) m = (.error e, m') := by
  simp only [inlineAll, h, hstep]

theorem inlineAll_of_inlined (h : r.fetch path d.name f m = (.ok body, m'))
    (hstep : d.inline r.limit f body = .ok c) :
    r.inlineAll path d (f :: targets) m = r.inlineAll path c targets m' := by
  simp only [inlineAll, h, hstep]

theorem fetch_of_known (h : m.find? f = some done) : r.fetch path g f m = (.ok done, m) := by
  rw [fetch, h]

theorem fetch_of_missing (hunknown : m.find? f = none) (h : r.registry.find? f = none) :
    r.fetch path g f m = (.error (.missingNestedFunction g f), m) := by
  simp only [fetch, hunknown, h]

theorem fetch_of_failed (hunknown : m.find? f = none) (hd : r.registry.find? f = some d)
    (h : r.resolveFrom path d m = (.error e, m')) : r.fetch path g f m = (.error e, m') := by
  simp only [fetch, hunknown, hd, h]

theorem fetch_of_fetched (hunknown : m.find? f = none) (hd : r.registry.find? f = some d)
    (h : r.resolveFrom path d m = (.ok done, m')) :
    r.fetch path g f m = (.ok done, m'.remember f done) := by
  simp only [fetch, hunknown, hd, h]

/-! ### The answers -/

/-- A resolution that has to run ends as its loop does. -/
theorem resolveFrom_fst (hres : ¬ d.isResolved = true) (hfresh : d.name ∉ path) :
    (r.resolveFrom path d m).1 = (r.inlineAll (path ++ [d.name]) d d.nested.letters m).1.map
      fun whole => { whole with nested := ∅ } := by
  cases hrun : r.inlineAll (path ++ [d.name]) d d.nested.letters m with
  | mk out m' =>
      cases out with
      | error e => rw [resolveFrom_of_refused hres hfresh hrun, Except.map]
      | ok whole => rw [resolveFrom_of_done hres hfresh hrun, Except.map]

/-- A loop ends as its first step does, or as the rest of it. -/
theorem inlineAll_cons_fst (targets : List Letter) : (r.inlineAll path d (f :: targets) m).1 =
    (r.fetch path d.name f m).1.bind fun body => (d.inline r.limit f body).bind fun next =>
      (r.inlineAll path next targets (r.fetch path d.name f m).2).1 := by
  cases hrun : r.fetch path d.name f m with
  | mk out m' =>
      cases out with
      | error e => rw [inlineAll_of_unfetched hrun, Except.bind]
      | ok body =>
          cases hstep : d.inline r.limit f body with
          | error e => simp only [inlineAll_of_large hrun hstep, Except.bind, hstep]
          | ok next => simp only [inlineAll_of_inlined hrun hstep, Except.bind, hstep]

theorem fetch_fst_of_unknown (hunknown : m.find? f = none) (hd : r.registry.find? f = some d) :
    (r.fetch path g f m).1 = (r.resolveFrom path d m).1 := by
  cases hrun : r.resolveFrom path d m with
  | mk out m' =>
      cases out with
      | error e => rw [fetch_of_failed hunknown hd hrun]
      | ok done => rw [fetch_of_fetched hunknown hd hrun]

end

/-! ### Along a run -/

/-- **What every step keeps holds of every run.**  `P`, `Q` and `R` say of the three functions
what their answers and memories are like, and there is one case for each branch, in the order
of the text of the functions. -/
theorem run_induct (r : Resolver)
    {P : List Letter → Definition → Memory → Except Error Definition × Memory → Prop}
    {Q : List Letter → Definition → List Letter → Memory → Except Error Definition × Memory → Prop}
    {R : List Letter → Letter → Letter → Memory → Except Error Definition × Memory → Prop}
    (resolved : ∀ path d m, d.isResolved = true → P path d m (.ok d, m))
    (cyclic : ∀ path d m, ¬ d.isResolved = true → d.name ∈ path →
      P path d m (.error (.cyclicReference (path ++ [d.name])), m))
    (refused : ∀ path d m, ¬ d.isResolved = true → d.name ∉ path → ∀ e m',
      r.inlineAll (path ++ [d.name]) d d.nested.letters m = (.error e, m') →
      Q (path ++ [d.name]) d d.nested.letters m (.error e, m') → P path d m (.error e, m'))
    (done : ∀ path d m, ¬ d.isResolved = true → d.name ∉ path → ∀ whole m',
      r.inlineAll (path ++ [d.name]) d d.nested.letters m = (.ok whole, m') →
      Q (path ++ [d.name]) d d.nested.letters m (.ok whole, m') →
      P path d m (.ok { whole with nested := ∅ }, m'.note { whole with nested := ∅ }))
    (nil : ∀ path d m, Q path d [] m (.ok d, m))
    (unfetched : ∀ path d m f targets e m', r.fetch path d.name f m = (.error e, m') →
      R path d.name f m (.error e, m') → Q path d (f :: targets) m (.error e, m'))
    (large : ∀ path d m f targets body m', r.fetch path d.name f m = (.ok body, m') →
      ∀ e, d.inline r.limit f body = .error e → R path d.name f m (.ok body, m') →
      Q path d (f :: targets) m (.error e, m'))
    (inlined : ∀ path d m f targets body m', r.fetch path d.name f m = (.ok body, m') →
      ∀ c, d.inline r.limit f body = .ok c → R path d.name f m (.ok body, m') →
      Q path c targets m' (r.inlineAll path c targets m') →
      Q path d (f :: targets) m (r.inlineAll path c targets m'))
    (known : ∀ path g f m done, m.find? f = some done → R path g f m (.ok done, m))
    (missing : ∀ path g f m, m.find? f = none → r.registry.find? f = none →
      R path g f m (.error (.missingNestedFunction g f), m))
    (failed : ∀ path g f m, m.find? f = none → ∀ d, r.registry.find? f = some d → ∀ e m',
      r.resolveFrom path d m = (.error e, m') → P path d m (.error e, m') →
      R path g f m (.error e, m'))
    (fetched : ∀ path g f m, m.find? f = none → ∀ d, r.registry.find? f = some d → ∀ done m',
      r.resolveFrom path d m = (.ok done, m') → P path d m (.ok done, m') →
      R path g f m (.ok done, m'.remember f done)) :
    (∀ path d m, P path d m (r.resolveFrom path d m)) ∧
    (∀ path d targets m, Q path d targets m (r.inlineAll path d targets m)) ∧
    (∀ path g f m, R path g f m (r.fetch path g f m)) := by
  refine resolveFrom.mutual_induct r _ _ _ ?resolved ?cyclic ?refused ?done ?nil ?unfetched
    ?large ?inlined ?known ?missing ?failed ?fetched
  case resolved =>
    intro path d m hres
    rw [resolveFrom_of_isResolved hres]
    exact resolved path d m hres
  case cyclic =>
    intro path d m hres hcyc
    rw [resolveFrom_of_mem_path hres hcyc]
    exact cyclic path d m hres hcyc
  case refused =>
    intro path d m hres hfresh e m' hrun ih
    rw [hrun] at ih
    rw [resolveFrom_of_refused hres hfresh hrun]
    exact refused path d m hres hfresh e m' hrun ih
  case done =>
    intro path d m hres hfresh whole m' hrun ih
    rw [hrun] at ih
    rw [resolveFrom_of_done hres hfresh hrun]
    exact done path d m hres hfresh whole m' hrun ih
  case nil =>
    intro path d m
    rw [inlineAll_nil]
    exact nil path d m
  case unfetched =>
    intro path d m f targets e m' hrun ih
    rw [hrun] at ih
    rw [inlineAll_of_unfetched hrun]
    exact unfetched path d m f targets e m' hrun ih
  case large =>
    intro path d m f targets body m' hrun e hstep ih
    rw [hrun] at ih
    rw [inlineAll_of_large hrun hstep]
    exact large path d m f targets body m' hrun e hstep ih
  case inlined =>
    intro path d m f targets body m' hrun c hstep ih ihrest
    rw [hrun] at ih
    rw [inlineAll_of_inlined hrun hstep]
    exact inlined path d m f targets body m' hrun c hstep ih ihrest
  case known =>
    intro path g f m done hknown
    rw [fetch_of_known hknown]
    exact known path g f m done hknown
  case missing =>
    intro path g f m hunknown hmissing
    rw [fetch_of_missing hunknown hmissing]
    exact missing path g f m hunknown hmissing
  case failed =>
    intro path g f m hunknown stored hstored e m' hrun ih
    rw [hrun] at ih
    rw [fetch_of_failed hunknown hstored hrun]
    exact failed path g f m hunknown stored hstored e m' hrun ih
  case fetched =>
    intro path g f m hunknown stored hstored done m' hrun ih
    rw [hrun] at ih
    rw [fetch_of_fetched hunknown hstored hrun]
    exact fetched path g f m hunknown stored hstored done m' hrun ih

end Switching.Resolver
