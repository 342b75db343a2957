/-
Every refusal tells the truth.

What the resolver refuses it refuses with evidence: the name that is not stored and the
function that refers to it, the names that were followed around a cycle, or the function
that grew too large and the size it would have had.  The evidence is put together during
the walk, and `Warranted` says what it has to be worth in the registry alone, without any
walking.

What carries the evidence through the walk is the path.  The names on it form a `Route`:
each refers to the next, the first is the one that was asked for, and none comes twice.
A step down adds one name, to which the last of the route refers.  If it is new the route
is prolonged, and if it is not the route and that name are the cycle.  Nothing has to be
known of the memory, since a look into it is never refused.
-/
import Mathlib.Data.List.Chain
import Switching.Proofs.Memory

namespace Switching

namespace Definition

variable {d c body : Definition} {limit : Nat} {f : Letter} {e : Error}

/-- What is refused in a step of the loop is a size beyond the limit. -/
theorem inline_eq_error (h : d.inline limit f body = .error e) :
    limit < min (d.statement.substitute f body.statement).length maxCount ∧
      e = .statementTooLarge d.name
        (min (d.statement.substitute f body.statement).length maxCount) limit := by
  simp only [inline, Statement.getD_substitutedSize?] at h
  split at h
  · cases h
  · rename_i hlarge
    rw [Except.error.injEq] at h
    exact ⟨Nat.lt_of_not_le hlarge, h.symm⟩

theorem name_of_inline (h : d.inline limit f body = .ok c) : c.name = d.name := by
  simp only [inline] at h
  split at h
  · rw [Except.ok.injEq] at h
    rw [← h]
  · cases h

end Definition

namespace Registry

/-- The names on `path` refer each to the next, from `l` to `g`, and none comes twice. -/
structure Route (r : Registry) (l : Letter) (path : List Letter) (g : Letter) : Prop where
  /-- It begins with `l`. -/
  starts : path.head? = some l
  /-- It ends with `g`. -/
  ends : path.getLast? = some g
  /-- Each name refers to the next. -/
  linked : path.IsChain r.Refers
  /-- No name comes twice. -/
  distinct : path.Nodup

variable {r : Registry} {l f g : Letter} {path : List Letter}

theorem Route.single (r : Registry) (l : Letter) : r.Route l [l] l :=
  ⟨rfl, rfl, .singleton l, by simp⟩

/-- A reference from its last name prolongs the chain. -/
theorem Route.linked_concat (h : r.Route l path g) (hf : r.Refers g f) :
    (path ++ [f]).IsChain r.Refers := by
  refine h.linked.append (.singleton f) ?_
  intro x hx y hy
  rw [h.ends] at hx
  cases hx
  cases hy
  exact hf

/-- A reference to a new name prolongs the route. -/
theorem Route.concat (h : r.Route l path g) (hf : r.Refers g f) (hnew : f ∉ path) :
    r.Route l (path ++ [f]) f where
  starts := by rw [List.head?_append, h.starts, Option.some_or]
  ends := List.getLast?_concat
  linked := h.linked_concat hf
  distinct := by
    rw [List.nodup_append]
    refine ⟨h.distinct, by simp, ?_⟩
    rintro a ha b hb rfl
    rw [List.mem_singleton.mp hb] at ha
    exact hnew ha

/-- A route leads to what its first name reaches. -/
theorem Route.reaches (h : r.Route l path g) : g = l ∨ r.Reaches l g := by
  obtain ⟨path, rfl⟩ : ∃ p, path = l :: p := List.head?_eq_some_iff.mp h.starts
  have hlast : (l :: path).getLast (by simp) = g := by
    rw [← Option.some.injEq, ← List.getLast?_eq_some_getLast, h.ends]
  have hwalk := List.relationReflTransGen_of_exists_isChain_cons path h.linked hlast
  exact Relation.reflTransGen_iff_eq_or_transGen.mp hwalk

end Registry

namespace Resolver

/-- A reason for refusing to resolve the function stored under `l` that the registry bears
out. -/
inductive Warranted (r : Resolver) (l : Letter) : Error → Prop
  /-- A function that `l` leads to refers to a name that is not stored. -/
  | missing {f g : Letter} (reached : f = l ∨ r.registry.Reaches l f)
      (refers : r.registry.Refers f g) (absent : r.registry.find? g = none) :
      Warranted r l (.missingNestedFunction f g)
  /-- References lead from `l` on along different names, and from the last of them back to one
  of them. -/
  | cyclic {path : List Letter} {back : Letter} (starts : path.head? = some l)
      (linked : (path ++ [back]).IsChain r.registry.Refers) (distinct : path.Nodup)
      (returns : back ∈ path) : Warranted r l (.cyclicReference (path ++ [back]))
  /-- A function that `l` leads to, and that refers to something, grows beyond the limit. -/
  | tooLarge {f g : Letter} {n : Nat} (reached : f = l ∨ r.registry.Reaches l f)
      (refers : r.registry.Refers f g) (exceeds : r.limit < n) :
      Warranted r l (.statementTooLarge f n r.limit)

/-- Those on `path` wait for `f`, each for the next, and it was `l` that was asked for. -/
def Awaited (r : Resolver) (l : Letter) (path : List Letter) (f : Letter) : Prop :=
  (path = [] ∧ f = l) ∨ ∃ g, r.registry.Route l path g ∧ r.registry.Refers g f

section

variable {r : Resolver} {l f : Letter} {path : List Letter} {d : Definition} {e : Error}

theorem Awaited.route (h : r.Awaited l path f) (hnew : f ∉ path) :
    r.registry.Route l (path ++ [f]) f := by
  rcases h with ⟨rfl, rfl⟩ | ⟨g, hroute, hf⟩
  · exact .single _ _
  · exact hroute.concat hf hnew

theorem Awaited.cyclic (h : r.Awaited l path f) (hf : f ∈ path) :
    r.Warranted l (.cyclicReference (path ++ [f])) := by
  rcases h with ⟨rfl, -⟩ | ⟨g, hroute, hg⟩
  · cases hf
  · exact .cyclic hroute.starts (hroute.linked_concat hg) hroute.distinct hf

/-- **Every refusal has its reason in the registry.**  Those that wait form a route while a
loop runs or a function is fetched, and await the next function when it is resolved. -/
theorem warranted (hr : r.registry.Compiled) :
    (∀ path (d : Definition) m, ∀ l e, r.registry.find? d.name = some d → r.Awaited l path d.name →
      (r.resolveFrom path d m).1 = .error e → r.Warranted l e) ∧
    (∀ path (d : Definition) targets m, ∀ l e, r.registry.Route l path d.name →
      (∀ f ∈ targets, r.registry.Refers d.name f) →
      (r.inlineAll path d targets m).1 = .error e → r.Warranted l e) ∧
    (∀ path g f m, ∀ l e, r.registry.Route l path g → r.registry.Refers g f →
      (r.fetch path g f m).1 = .error e → r.Warranted l e) := by
  refine r.run_induct
    (P := fun path d _ out => ∀ l e, r.registry.find? d.name = some d →
      r.Awaited l path d.name → out.1 = .error e → r.Warranted l e)
    (Q := fun path d targets _ out => ∀ l e, r.registry.Route l path d.name →
      (∀ f ∈ targets, r.registry.Refers d.name f) → out.1 = .error e → r.Warranted l e)
    (R := fun path g f _ out => ∀ l e, r.registry.Route l path g → r.registry.Refers g f →
      out.1 = .error e → r.Warranted l e) ?resolved ?cyclic
    ?refused ?done ?nil ?unfetched ?large ?inlined ?known ?missing ?failed ?fetched
  case resolved =>
    intro path d m hres l e _ _ he
    cases he
  case cyclic =>
    intro path d m hres hcyc l e _ hawaited he
    cases he
    exact hawaited.cyclic hcyc
  -- only here and in `cyclic` does the path matter: a name that is new prolongs the route
  case refused =>
    intro path d m hres hfresh e' m' hrun ih l e hd hawaited he
    have hrefers : ∀ f ∈ d.nested.letters, r.registry.Refers d.name f :=
      fun f hf => ⟨d, hd, (hr.listed hd).mem_nested.mp hf⟩
    exact ih l e (hawaited.route hfresh) hrefers he
  case done =>
    intro path d m hres hfresh whole m' hrun _ l e _ _ he
    cases he
  case nil =>
    intro path d m l e _ _ he
    cases he
  case unfetched =>
    intro path d m f targets e' m' hrun ih l e hroute hrefers he
    exact ih l e hroute (hrefers f (List.mem_cons_self ..)) he
  case large =>
    intro path d m f targets body m' hrun e' hstep _ l e hroute hrefers he
    obtain ⟨hn, rfl⟩ := Definition.inline_eq_error hstep
    cases he
    exact .tooLarge hroute.reaches (hrefers f (List.mem_cons_self ..)) hn
  case inlined =>
    intro path d m f targets body m' hrun c hstep _ ihrest l e hroute hrefers he
    -- the definition in the loop has another statement by now, but still its name
    have hname := Definition.name_of_inline hstep
    refine ihrest l e ?_ ?_ he
    · rwa [hname]
    · rw [hname]
      exact fun g hg => hrefers g (List.mem_cons_of_mem _ hg)
  case known =>
    intro path g f m done hknown l e _ _ he
    cases he
  case missing =>
    intro path g f m hunknown hmissing l e hroute hf he
    cases he
    exact .missing hroute.reaches hf hmissing
  case failed =>
    intro path g f m hunknown stored hstored e' m' hrun ih l e hroute hf he
    have hname := hr.name_eq hstored
    exact ih l e (by rwa [hname]) (.inr ⟨g, hroute, by rwa [hname]⟩) he
  case fetched =>
    intro path g f m hunknown stored hstored done m' hrun _ l e _ _ he
    cases he

/-- **Whatever the refusal of a stored function says is so in the registry**, whether
something is remembered or not. -/
theorem resolve_eq_error (hr : r.registry.Compiled) (hd : r.registry.find? l = some d)
    {m : Memory} (h : (r.resolve d m).1 = .error e) : r.Warranted l e := by
  have hname := hr.name_eq hd
  refine (warranted hr).1 [] d m l e ?_ (.inl ⟨rfl, hname⟩) h
  rwa [hname]

end

/-! ### An example -/

/-- The function `f = b$g`. -/
def entry : Definition where
  name := .f
  expression := "b$g"
  statement := [.var .b, .op .and, .ref .g]
  vars := .ofList [.b]
  nested := .ofList [.g]

/-- The function `g = !$g`. -/
def knot : Definition where
  name := .g
  expression := "!$g"
  statement := [.not, .ref .g]
  vars := ∅
  nested := .ofList [.g]

/-- A registry with a function that refers to itself and one that refers to that. -/
def looped : Registry :=
  (Registry.define ∅ entry).define knot

theorem compiled_looped : looped.Compiled := by
  have hentry : Definition.compile 'f' "b$g" = .ok entry := rfl
  have hknot : Definition.compile 'g' "!$g" = .ok knot := rfl
  exact (Registry.compiled_empty.define hentry).define hknot

/-- The cycle is one of `g`, and the evidence shows how `f` comes to it. -/
theorem resolve_entry :
    (resolve ⟨looped, 16⟩ entry ∅).1 = .error (.cyclicReference [.f, .g, .g]) := by
  have hentry : entry.nested.letters = [.g] := rfl
  have hknot : knot.nested.letters = [.g] := rfl
  have hstored : looped.find? .g = some knot := rfl
  have hknown : (∅ : Memory).find? .g = none := rfl
  have hsecond : resolveFrom ⟨looped, 16⟩ [.f, .g] knot ∅ =
      (.error (.cyclicReference [.f, .g, .g]), ∅) :=
    resolveFrom_of_mem_path (by decide) (by decide)
  have hfirst : resolveFrom ⟨looped, 16⟩ [.f] knot ∅ =
      (.error (.cyclicReference [.f, .g, .g]), ∅) := by
    refine resolveFrom_of_refused (by decide) (by decide) ?_
    rw [hknot]
    exact inlineAll_of_unfetched (fetch_of_failed hknown hstored hsecond)
  have hloop : inlineAll ⟨looped, 16⟩ [.f] entry entry.nested.letters ∅ =
      (.error (.cyclicReference [.f, .g, .g]), ∅) := by
    rw [hentry]
    exact inlineAll_of_unfetched (fetch_of_failed hknown hstored hfirst)
  rw [resolve, resolveFrom_of_refused (by decide) (by simp) hloop]

theorem resolve_eq_error_looped : looped.Compiled ∧ looped.find? .f = some entry ∧
    (resolve ⟨looped, 16⟩ entry ∅).1 = .error (.cyclicReference [.f, .g, .g]) ∧
    Warranted ⟨looped, 16⟩ .f (.cyclicReference [.f, .g, .g]) :=
  ⟨compiled_looped, rfl, resolve_entry, resolve_eq_error compiled_looped rfl resolve_entry⟩

end Resolver

end Switching
