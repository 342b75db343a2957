/-
What the size in a refusal is the size of.

A function that grows beyond the limit is refused with a number of tokens.  It is put
together one reference after another, in the order of their names, and the check comes after
each of them, so the number is that of a statement in which some references have given way
to full expansions and the others stand as they were.  `Outgrows` says which: those up to the
first that takes the statement beyond the limit.

A function therefore turns out larger than it is said to be, unless the reference at which it
was refused is its last.  Each reference still to come gives way to two parentheses at least.
-/
import Switching.Proofs.Canonical
import Switching.Proofs.Refusals

namespace Switching.Resolver

/-- Where the full expansions of `targets` are put into `s` one after another, `n` tokens are
the first that are too many, and the expansions of `rest` are still to come. -/
inductive Outgrows (r : Resolver) (s : Statement) (targets : List Letter) (n : Nat)
    (rest : List Letter) : Prop
  /-- The expansions before that of `target` were within the limit. -/
  | intro {before : List Letter} {target : Letter} (split : targets = before ++ target :: rest)
      (expanded : ∀ f ∈ before ++ [target], ∃ t, r.registry.expansion? f = some t)
      (kept : before = [] ∨ r.Allows (s.fill (r.registry.bodies before)).length)
      (counted : n = min (s.fill (r.registry.bodies (before ++ [target]))).length maxCount)
      (exceeds : r.limit < n)

/-- If the refusal is for a size, a stored function had that size when it was found too
large. -/
def Measured (r : Resolver) (e : Error) : Prop :=
  ∀ f n limit, e = .statementTooLarge f n limit → limit = r.limit ∧
    ∃ d rest, r.registry.find? f = some d ∧ r.Outgrows d.statement d.nested.letters n rest

variable {r : Resolver} {d body : Definition} {s : Statement} {f l : Letter}
  {targets rest : List Letter} {n : Nat} {m : Memory}

/-- The first expansion is too much. -/
theorem Outgrows.first (hbody : r.ResolvesTo f body)
    (hlarge : r.limit < min (s.substitute f body.statement).length maxCount)
    (targets : List Letter) : r.Outgrows s (f :: targets)
      (min (s.substitute f body.statement).length maxCount) targets := by
  have hf := hbody.expansion?_eq
  have split : f :: targets = [] ++ f :: targets := rfl
  refine .intro split ?_ (.inl rfl) ?_ hlarge
  · intro g hg
    rw [List.mem_singleton.mp hg]
    exact ⟨_, hf⟩
  · rw [Registry.substitute_eq_fill_bodies hf, List.nil_append]

/-- The first expansion is within the limit, and one of those behind it is too much. -/
theorem Outgrows.cons (hbody : r.ResolvesTo f body)
    (hall : r.Allows (s.substitute f body.statement).length)
    (h : r.Outgrows (s.substitute f body.statement) targets n rest) :
    r.Outgrows s (f :: targets) n rest := by
  have hf := hbody.expansion?_eq
  obtain ⟨rfl, expanded, kept, counted, exceeds⟩ := h
  rename_i before target
  rw [Registry.fill_bodies_substitute hf] at counted kept
  have split : f :: (before ++ target :: rest) = (f :: before) ++ target :: rest := rfl
  refine .intro split ?_ (.inr ?_) counted exceeds
  · intro g hg
    rcases List.mem_cons.mp hg with rfl | hg
    · exact ⟨_, hf⟩
    · exact expanded g hg
  · rcases kept with rfl | kept
    · rwa [← Registry.fill_bodies_substitute hf, Registry.fill_bodies_nil]
    · exact kept

/-- **Every refusal for size measures a stored function.**  The loop measures what it is
still to do to the definition it has, which has the name of the stored one. -/
theorem measured (hr : r.registry.Compiled) :
    (∀ path (d : Definition) m, ∀ e, r.registry.find? d.name = some d → r.Recalls m →
      (r.resolveFrom path d m).1 = .error e → r.Measured e) ∧
    (∀ path (d : Definition) targets m, ∀ e, r.Recalls m →
      (r.inlineAll path d targets m).1 = .error e → r.Measured e ∨
        ∃ n rest, e = .statementTooLarge d.name n r.limit ∧
          r.Outgrows d.statement targets n rest) ∧
    (∀ path g f m, ∀ e, r.Recalls m → (r.fetch path g f m).1 = .error e → r.Measured e) := by
  refine r.run_induct
    (P := fun _ d m out => ∀ e, r.registry.find? d.name = some d → r.Recalls m →
      out.1 = .error e → r.Measured e)
    (Q := fun _ d targets m out => ∀ e, r.Recalls m → out.1 = .error e → r.Measured e ∨
      ∃ n rest, e = .statementTooLarge d.name n r.limit ∧ r.Outgrows d.statement targets n rest)
    (R := fun _ _ _ m out => ∀ e, r.Recalls m → out.1 = .error e → r.Measured e)
    ?resolved ?cyclic ?refused ?done ?nil ?unfetched ?large ?inlined ?known ?missing ?failed
    ?fetched
  case resolved =>
    intro path d m _ e _ _ he
    cases he
  case cyclic =>
    intro path d m _ _ e _ _ he f n limit hsize
    rw [hsize, Except.error.injEq] at he
    cases he
  case refused =>
    intro path d m _ _ e' m' _ ih e hd hm he
    rcases ih e hm he with hmeasured | ⟨n, rest, hsize, hgrown⟩
    · exact hmeasured
    · intro f n' limit hsize'
      rw [hsize, Error.statementTooLarge.injEq] at hsize'
      obtain ⟨rfl, rfl, rfl⟩ := hsize'
      exact ⟨rfl, d, rest, hd, hgrown⟩
  case done =>
    intro path d m _ _ whole m' _ _ e _ _ he
    cases he
  case nil =>
    intro path d m e _ he
    cases he
  case unfetched =>
    intro path d m f targets e' m' _ ih e hm he
    exact .inl (ih e hm he)
  case large =>
    intro path d m f targets body m' hrun e' hstep _ e hm he
    have hbody := ((yields hr).2.2 path d.name f m hm).1
    rw [hrun] at hbody
    obtain ⟨hlarge, rfl⟩ := Definition.inline_eq_error hstep
    rw [Except.error.injEq] at he
    exact .inr ⟨_, targets, he.symm, .first (hbody _ rfl) hlarge targets⟩
  case inlined =>
    intro path d m f targets body m' hrun c hstep _ ihrest e hm he
    have hyields := (yields hr).2.2 path d.name f m hm
    rw [hrun] at hyields
    rcases inline_eq (r := r) d f body with ⟨_, hno, -⟩ | ⟨hc, hall⟩
    · rw [hno] at hstep
      cases hstep
    · rw [hc, Except.ok.injEq] at hstep
      subst hstep
      rcases ihrest e hyields.2 he with hmeasured | ⟨n, rest, hsize, hgrown⟩
      · exact .inl hmeasured
      · exact .inr ⟨n, rest, hsize, .cons (hyields.1 _ rfl) hall hgrown⟩
  case known =>
    intro path g f m done _ e _ he
    cases he
  case missing =>
    intro path g f m _ _ e _ he f' n limit hsize
    rw [hsize, Except.error.injEq] at he
    cases he
  case failed =>
    intro path g f m _ stored hstored e' m' _ ih e hm he
    refine ih e ?_ hm he
    rwa [hr.name_eq hstored]
  case fetched =>
    intro path g f m _ stored _ done m' _ _ e _ he
    cases he

/-- **What was measured is no more than the full expansion**, and it is all of it exactly if no
reference was left. -/
theorem Outgrows.size_eq_iff (hd : d.Listed) (hs : r.registry.Expands d s)
    (hsize : s.length ≤ maxCount) (h : r.Outgrows d.statement d.nested.letters n rest) :
    n ≤ s.length ∧ (n = s.length ↔ rest = []) := by
  obtain ⟨split, -, -, counted, -⟩ := h
  rename_i before target
  have hsplit : d.nested.letters = (before ++ [target]) ++ rest := by simpa using split
  have hwhole : s = (d.statement.fill (r.registry.bodies (before ++ [target]))).fill
      (r.registry.bodies rest) := by
    rw [Registry.fill_bodies_append, ← hsplit]
    exact hs.eq_fill_bodies fun f hf => hd.mem_nested.mpr hf
  have hle : (d.statement.fill (r.registry.bodies (before ++ [target]))).length ≤ s.length := by
    rw [hwhole]
    exact Statement.length_le_length_fill
  have hn : n = (d.statement.fill (r.registry.bodies (before ++ [target]))).length := by omega
  refine ⟨by omega, ?_, ?_⟩
  · intro heq
    by_contra hne
    obtain ⟨f, after, rfl⟩ := List.exists_cons_of_ne_nil hne
    have hnew : f ∉ before ++ [target] := by
      have hnodup := d.nested.nodup
      rw [hsplit, List.nodup_append] at hnodup
      exact fun hf => hnodup.2.2 f hf f (List.mem_cons_self ..) rfl
    have hf : .ref f ∈ d.statement := by
      rw [← hd.mem_nested, hsplit]
      exact List.mem_append_right _ (List.mem_cons_self ..)
    -- the reference to `f` is still there, and has something to give way to
    obtain ⟨df, t, -, -, hdf, ht, -⟩ := hs.of_ref hf
    have hbody : r.registry.bodies (f :: after) f = some t := by
      rw [Registry.bodies, if_pos (List.mem_cons_self ..)]
      exact Registry.expansion?_eq_some_iff.mpr ⟨df, hdf, ht⟩
    have hleft : .ref f ∈ d.statement.fill (r.registry.bodies (before ++ [target])) := by
      refine (Statement.mem_fill_iff (by simp) (by simp)).mpr (.inl ⟨hf, ?_⟩)
      intro g hg
      cases hg
      exact if_neg hnew
    have hlt := Statement.length_lt_length_fill hleft hbody
    rw [← hwhole] at hlt
    omega
  · rintro rfl
    rw [hn, hwhole, Registry.fill_bodies_nil]

/-- **The size in a refusal is the size so far.**  A stored function is refused for a size,
whatever was asked for before, only if the function named had that size when the expansion of
one of its references first took it beyond the limit.  If it has a full expansion that can be
counted, that is at least as large, and it has the size named exactly if there was no reference
left to expand. -/
theorem resolve_tooLarge_size (hr : r.registry.Compiled) (hd : r.registry.find? l = some d)
    (hm : r.Served m) {limit : Nat}
    (h : (r.resolve d m).1 = .error (.statementTooLarge f n limit)) :
    limit = r.limit ∧ ∃ df rest, r.registry.find? f = some df ∧
      r.Outgrows df.statement df.nested.letters n rest ∧
      ∀ s, r.registry.Expands df s → s.length ≤ maxCount →
        n ≤ s.length ∧ (n = s.length ↔ rest = []) := by
  have hstored : r.registry.find? d.name = some d := by
    rwa [hr.name_eq hd]
  obtain ⟨hlimit, df, rest, hdf, hgrown⟩ :=
    (measured hr).1 [] d m _ hstored (hm.recalls hr) h f n limit rfl
  exact ⟨hlimit, df, rest, hdf, hgrown, fun s hs hsize =>
    hgrown.size_eq_iff (hr.listed hdf) hs hsize⟩

/-! ### An example -/

/-- The function `f = a`. -/
def plain : Definition where
  name := .f
  expression := "a"
  statement := [.var .a]
  vars := .ofList [.a]
  nested := ∅

/-- The function `a = $f+$g`. -/
def both : Definition where
  name := .a
  expression := "$f+$g"
  statement := [.ref .f, .op .or, .ref .g]
  vars := ∅
  nested := .ofList [.f, .g]

/-- A registry with two functions and one that refers to each of them once. -/
def pair : Registry :=
  ((Registry.define ∅ plain).define TruthTable.narrow).define both

theorem compiled_pair : pair.Compiled := by
  have hplain : Definition.compile 'f' "a" = .ok plain := rfl
  have hnarrow : Definition.compile 'g' "b" = .ok TruthTable.narrow := rfl
  have hboth : Definition.compile 'a' "$f+$g" = .ok both := rfl
  exact ((Registry.compiled_empty.define hplain).define hnarrow).define hboth

/-- With four tokens the function is refused as soon as `f` has been put in. -/
theorem resolve_both : (resolve ⟨pair, 4⟩ both ∅).1 = .error (.statementTooLarge .a 5 4) := by
  have hletters : both.nested.letters = [.f, .g] := rfl
  have hfetch : fetch ⟨pair, 4⟩ [.a] .a .f ∅ = (.ok plain, Memory.remember ∅ .f plain) := by
    have hknown : (∅ : Memory).find? .f = none := rfl
    have hstored : pair.find? .f = some plain := rfl
    exact fetch_of_fetched hknown hstored (resolveFrom_of_isResolved rfl)
  have hinline : both.inline 4 .f plain = .error (.statementTooLarge .a 5 4) := rfl
  have hpath : ([] ++ [both.name] : List Letter) = [.a] := rfl
  rw [resolve, resolveFrom_fst (by decide) (by simp), hletters, hpath,
    inlineAll_of_large hfetch hinline]
  rfl

/-- Its full expansion is `(a)+(b)`. -/
theorem expands_both : pair.Expands both
    [.lparen, .var .a, .rparen, .op .or, .lparen, .var .b, .rparen] := by
  have hexp : pair.Expands both (both.statement.fill fun f =>
      if f = .f then some plain.statement else some TruthTable.narrow.statement) := by
    refine .of_fill fun f hf => ?_
    have hor : f = .f ∨ f = .g := by simpa [both] using hf
    rcases hor with rfl | rfl
    · exact ⟨plain, _, rfl, rfl, .of_no_ref (by simp [plain])⟩
    · exact ⟨TruthTable.narrow, _, rfl, rfl, .of_no_ref (by simp [TruthTable.narrow])⟩
  exact hexp

/-- The reference to `g` is left where `a = $f+$g` is refused, so there is more to it than was
measured. -/
theorem resolve_tooLarge_size_both : pair.Compiled ∧ pair.find? .a = some both ∧
    Served ⟨pair, 4⟩ ∅ ∧ (resolve ⟨pair, 4⟩ both ∅).1 = .error (.statementTooLarge .a 5 4) ∧
    ∃ rest s, Outgrows ⟨pair, 4⟩ both.statement both.nested.letters 5 rest ∧
      pair.Expands both s ∧ 5 ≤ s.length ∧ rest ≠ [] := by
  have hd : pair.find? .a = some both := rfl
  obtain ⟨-, df, rest, hdf, hgrown, hsize⟩ :=
    resolve_tooLarge_size compiled_pair hd .nothing resolve_both
  rw [hd, Option.some.injEq] at hdf
  subst hdf
  obtain ⟨hle, hiff⟩ := hsize _ expands_both (by decide)
  exact ⟨compiled_pair, hd, .nothing, resolve_both, rest, _, hgrown, expands_both, hle,
    fun hnil => absurd (hiff.mpr hnil) (by decide)⟩

/-- A function that expands to seven tokens is refused for five. -/
theorem resolve_both_short : pair.Compiled ∧ pair.find? .a = some both ∧
    (resolve ⟨pair, 4⟩ both ∅).1 = .error (.statementTooLarge .a 5 4) ∧
    ∃ s, pair.Expands both s ∧ s.length = 7 ∧ s.length ≤ maxCount :=
  ⟨compiled_pair, rfl, resolve_both, _, expands_both, rfl, by decide⟩

end Switching.Resolver
