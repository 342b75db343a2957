/-
Full expansions.

The full expansion of a definition is its statement with every reference replaced, all
at once, by the full expansion of the function referred to.  Said as a relation this is
one rule, and a derivation by that rule is a walk through everything that the definition
reaches.  A function on a cycle has no such walk, nor has one that reaches a name that
is not stored; every other has exactly one.

That a cycle leaves no expansion is seen on sizes.  What a definition reaches stands in
its expansion, in parentheses, so a definition that reached itself would have an
expansion longer than itself.  That nothing else is in the way is seen on the measure
that the resolver runs on: a walk from name to name that never returns uses up the
alphabet.
-/
import Mathlib.Tactic.Choose
import Switching.Proofs.Filling
import Switching.Proofs.References
import Switching.Resolution

namespace Switching.Registry

/-- `Expands r d s`: the full expansion of `d` is `s`. -/
inductive Expands (r : Registry) : Definition → Statement → Prop
  /-- Every function referred to is stored, and its full expansion takes the place of the
  reference. -/
  | intro {d : Definition} {target : Letter → Definition} {body : Letter → Statement}
      (stored : ∀ f, .ref f ∈ d.statement → r.find? f = some (target f))
      (expanded : ∀ f, .ref f ∈ d.statement → Expands r (target f) (body f)) :
      Expands r d (d.statement.fill fun f => some (body f))

namespace Expands

variable {r : Registry} {d : Definition} {s t : Statement} {l f : Letter}

/-- A statement filled with the full expansions of what it refers to is one. -/
theorem of_fill {bodies : Letter → Option Statement}
    (h : ∀ f, .ref f ∈ d.statement →
      ∃ df s, bodies f = some s ∧ r.find? f = some df ∧ r.Expands df s) :
    r.Expands d (d.statement.fill bodies) := by
  have hfun : ∀ f, ∃ p : Definition × Statement, .ref f ∈ d.statement →
      bodies f = some p.2 ∧ r.find? f = some p.1 ∧ r.Expands p.1 p.2 := by
    intro f
    by_cases hf : .ref f ∈ d.statement
    · obtain ⟨df, s, hs⟩ := h f hf
      exact ⟨(df, s), fun _ => hs⟩
    · exact ⟨(d, []), fun hin => absurd hin hf⟩
  choose next hnext using hfun
  rw [Statement.fill_congr fun f hf => (hnext f hf).1]
  exact .intro (fun f hf => (hnext f hf).2.1) fun f hf => (hnext f hf).2.2

/-- A statement without references is its own full expansion. -/
theorem of_no_ref (h : ∀ f, .ref f ∉ d.statement) : r.Expands d d.statement := by
  have hself : d.statement.fill (fun _ => none) = d.statement :=
    Statement.fill_eq_self fun _ _ => rfl
  rw [← hself]
  exact of_fill fun f hf => absurd hf (h f)

/-- Where one function is referred to, and that refers to none, its statement is put in. -/
theorem of_single {df : Definition} (hdf : r.find? f = some df)
    (honly : ∀ g, .ref g ∈ d.statement → g = f) (hnone : ∀ g, .ref g ∉ df.statement) :
    r.Expands d (d.statement.fill fun _ => some df.statement) := by
  refine of_fill fun g hg => ⟨df, df.statement, rfl, ?_, of_no_ref hnone⟩
  rw [honly g hg]
  exact hdf

/-- No reference is left. -/
theorem ref_not_mem (h : r.Expands d s) : ∀ f, .ref f ∉ s := by
  induction h with
  | intro stored expanded ih =>
      intro f hf
      rcases (Statement.mem_fill_iff (by simp) (by simp)).mp hf with ⟨_, hnone⟩ | ⟨g, b, hg, hb, hf⟩
      · cases hnone f rfl
      · rw [Option.some.injEq] at hb
        subst hb
        exact ih g hg f hf

/-- **A definition has one full expansion.** -/
theorem unique (h : r.Expands d s) : ∀ {t : Statement}, r.Expands d t → s = t := by
  induction h with
  | intro stored expanded ih =>
      intro t ht
      cases ht with
      | intro stored' expanded' =>
          refine Statement.fill_congr fun f hf => ?_
          have htarget := (stored f hf).symm.trans (stored' f hf)
          rw [Option.some.injEq] at htarget
          have hbody := expanded' f hf
          rw [← htarget] at hbody
          rw [ih f hf hbody]

/-- What is referred to stands, expanded and in parentheses, in the full expansion. -/
theorem of_ref (h : r.Expands d s) (hf : .ref f ∈ d.statement) :
    ∃ df t a c, r.find? f = some df ∧ r.Expands df t ∧ s = a ++ .lparen :: (t ++ .rparen :: c) := by
  cases h with
  | @intro _ target body stored expanded =>
      have hs : ∃ a c, d.statement.fill (fun g => some (body g)) =
          a ++ .lparen :: (body f ++ .rparen :: c) := Statement.exists_fill_eq hf rfl
      obtain ⟨a, c, hs⟩ := hs
      exact ⟨target f, body f, a, c, stored f hf, expanded f hf, hs⟩

/-- **What a stored function reaches stands, expanded and in parentheses, in its full
expansion.** -/
theorem of_reaches (hd : r.find? l = some d) (h : r.Expands d s) (hf : r.Reaches l f) :
    ∃ df t a c, r.find? f = some df ∧ r.Expands df t ∧ s = a ++ .lparen :: (t ++ .rparen :: c) := by
  induction hf with
  | single hf =>
      obtain ⟨d', hd', hf⟩ := hf
      rw [hd, Option.some.injEq] at hd'
      subst hd'
      exact h.of_ref hf
  | tail _ hf ih =>
      obtain ⟨d', t, a, c, hd', ht, rfl⟩ := ih
      obtain ⟨d'', hd'', hf⟩ := hf
      rw [hd', Option.some.injEq] at hd''
      subst hd''
      obtain ⟨df, u, b, e, hdf, hu, rfl⟩ := ht.of_ref hf
      exact ⟨df, u, a ++ .lparen :: b, e ++ .rparen :: c, hdf, hu, by simp⟩

/-- What has a full expansion does not reach itself. -/
theorem not_reaches_self (hd : r.find? l = some d) (h : r.Expands d s) : ¬ r.Reaches l l := by
  intro hl
  obtain ⟨d', t, a, c, hd', ht, hs⟩ := h.of_reaches hd hl
  rw [hd, Option.some.injEq] at hd'
  subst hd'
  rw [h.unique ht] at hs
  exact absurd (Statement.length_lt_of_enclosed hs) (Nat.lt_irrefl _)

/-- The variables of a full expansion are those that the function or one that it reaches
mentions. -/
theorem var_mem_iff (hd : r.find? l = some d) (h : r.Expands d s) {v : Letter} :
    .var v ∈ s ↔ ∃ f df, (f = l ∨ r.Reaches l f) ∧ r.find? f = some df ∧ .var v ∈ df.statement := by
  constructor
  · intro hv
    induction h generalizing l with
    | @intro d target body stored expanded ih =>
        rcases (Statement.mem_fill_iff (by simp) (by simp)).mp hv with ⟨hv, -⟩ | ⟨g, b, hg, hb, hv⟩
        · exact ⟨l, d, .inl rfl, hd, hv⟩
        · rw [Option.some.injEq] at hb
          subst hb
          obtain ⟨f, df, hf, hdf, hv⟩ := ih g hg (stored g hg) hv
          have hlg : r.Reaches l g := .of_mem hd hg
          refine ⟨f, df, .inr ?_, hdf, hv⟩
          rcases hf with rfl | hf
          · exact hlg
          · exact hlg.trans hf
  · have mentioned : ∀ {d' : Definition} {t : Statement}, r.Expands d' t →
        .var v ∈ d'.statement → .var v ∈ t := by
      intro d' t ht hv
      cases ht
      exact (Statement.mem_fill_iff (by simp) (by simp)).mpr (.inl ⟨hv, fun f hf => nomatch hf⟩)
    intro hex
    rcases hex with ⟨f, df, rfl | hf, hdf, hv⟩
    · rw [hd, Option.some.injEq] at hdf
      subst hdf
      exact mentioned h hv
    · obtain ⟨df', t, a, c, hdf', ht, rfl⟩ := h.of_reaches hd hf
      rw [hdf, Option.some.injEq] at hdf'
      subst hdf'
      simp [mentioned ht hv]

end Expands

/-! ### Where nothing is missing and nothing comes back, there is an expansion -/

section

variable {r : Registry}

/-- Along a path of names that all lead on to `l`, there are fewer and fewer left to go
to. -/
theorem exists_expands_from : ∀ (k : Nat) (path : List Letter) {l : Letter} {d : Definition},
    Resolver.unvisited path < k → (∀ p ∈ path, r.Reaches p l) → r.find? l = some d →
    (∀ f, r.Reaches l f → ∃ df, r.find? f = some df) →
    (∀ f, f = l ∨ r.Reaches l f → ¬ r.Reaches f f) → ∃ s, r.Expands d s := by
  intro k
  induction k with
  | zero =>
      intro path l d hk
      exact absurd hk (Nat.not_lt_zero _)
  | succ k ih =>
      intro path l d hk hpath hd hstored hacyclic
      have hfresh : l ∉ path := fun hl => hacyclic l (.inl rfl) (hpath l hl)
      -- one more name on the path is one less to go to
      have hless := Resolver.unvisited_append_lt hfresh
      have hnext : ∀ f, .ref f ∈ d.statement → ∃ df s, r.find? f = some df ∧ r.Expands df s := by
        intro f hf
        have hlf : r.Reaches l f := .of_mem hd hf
        have hpath' : ∀ p ∈ path ++ [l], r.Reaches p f := by
          intro p hp
          rcases List.mem_append.mp hp with hp | hp
          · exact (hpath p hp).trans hlf
          · rw [List.mem_singleton.mp hp]
            exact hlf
        have hacyclic' : ∀ g, g = f ∨ r.Reaches f g → ¬ r.Reaches g g := by
          intro g hor
          rcases hor with rfl | hg
          · exact hacyclic _ (.inr hlf)
          · exact hacyclic _ (.inr (hlf.trans hg))
        obtain ⟨df, hdf⟩ := hstored f hlf
        obtain ⟨s, hs⟩ := ih (path ++ [l]) (by omega) hpath' hdf
          (fun g hg => hstored g (hlf.trans hg)) hacyclic'
        exact ⟨df, s, hdf, hs⟩
      have hbodies : ∀ f, ∃ b : Option Statement, .ref f ∈ d.statement →
          ∃ df s, b = some s ∧ r.find? f = some df ∧ r.Expands df s := by
        intro f
        by_cases hf : .ref f ∈ d.statement
        · obtain ⟨df, s, hdf, hs⟩ := hnext f hf
          exact ⟨some s, fun _ => ⟨df, s, rfl, hdf, hs⟩⟩
        · exact ⟨none, fun h => absurd h hf⟩
      choose bodies hbodies using hbodies
      exact ⟨_, .of_fill hbodies⟩

/-- **A function has a full expansion if all that it reaches is stored and none of it, nor
itself, lies on a cycle.** -/
theorem exists_expands {l : Letter} {d : Definition} (hd : r.find? l = some d)
    (hstored : ∀ f, r.Reaches l f → ∃ df, r.find? f = some df)
    (hacyclic : ∀ f, f = l ∨ r.Reaches l f → ¬ r.Reaches f f) : ∃ s, r.Expands d s :=
  exists_expands_from (Resolver.unvisited [] + 1) [] (Nat.lt_succ_self _)
    (fun _ hp => nomatch hp) hd hstored hacyclic

/-- What a function with a full expansion reaches is stored and on no cycle. -/
theorem Expands.closed {l : Letter} {d : Definition} {s : Statement} (hd : r.find? l = some d)
    (h : r.Expands d s) : (∀ f, r.Reaches l f → ∃ df, r.find? f = some df) ∧
      ∀ f, f = l ∨ r.Reaches l f → ¬ r.Reaches f f := by
  constructor
  · intro f hf
    obtain ⟨df, _, _, _, hdf, _⟩ := h.of_reaches hd hf
    exact ⟨df, hdf⟩
  · intro f hor
    rcases hor with rfl | hf
    · exact h.not_reaches_self hd
    · obtain ⟨df, t, _, _, hdf, ht, _⟩ := h.of_reaches hd hf
      exact ht.not_reaches_self hdf

end

/-! ### The expansion of a name -/

section

variable {r : Registry} {targets : List Letter} {f : Letter} {s : Statement}

/-- The full expansion of the function stored under a name, if there is one. -/
noncomputable def expansion? (r : Registry) (f : Letter) : Option Statement :=
  open Classical in
  if h : ∃ s d, r.find? f = some d ∧ r.Expands d s then some h.choose else none

theorem expansion?_eq_some_iff :
    r.expansion? f = some s ↔ ∃ d, r.find? f = some d ∧ r.Expands d s := by
  unfold expansion?
  constructor
  · intro h
    split at h
    · rename_i hex
      rw [Option.some.injEq] at h
      rw [← h]
      exact hex.choose_spec
    · cases h
  · intro hex
    obtain ⟨d, hd, hs⟩ := hex
    have hex : ∃ s d, r.find? f = some d ∧ r.Expands d s := ⟨s, d, hd, hs⟩
    obtain ⟨d', hd', hs'⟩ := hex.choose_spec
    rw [hd, Option.some.injEq] at hd'
    subst hd'
    rw [dif_pos hex, hs.unique hs']

/-- The full expansions of some names, as bodies for a filling. -/
noncomputable def bodies (r : Registry) (targets : List Letter) (f : Letter) : Option Statement :=
  if f ∈ targets then r.expansion? f else none

theorem fill_bodies_nil (s : Statement) : s.fill (r.bodies []) = s :=
  Statement.fill_among_nil s

/-- Filling with the full expansions of some names and then of others fills with all of
them. -/
theorem fill_bodies_append (s : Statement) (targets others : List Letter) :
    (s.fill (r.bodies targets)).fill (r.bodies others) = s.fill (r.bodies (targets ++ others)) := by
  refine Statement.fill_among_append ?_ s others
  intro f _ b hb
  obtain ⟨d, -, hexp⟩ := expansion?_eq_some_iff.mp hb
  exact hexp.ref_not_mem

/-- Substituting a full expansion is filling with that of one name. -/
theorem substitute_eq_fill_bodies {t : Statement} (hf : r.expansion? f = some t) (s : Statement) :
    s.substitute f t = s.fill (r.bodies [f]) :=
  Statement.substitute_eq_fill_among hf s

/-- Substituting one full expansion after another fills with all of them. -/
theorem fill_bodies_substitute {t : Statement} (hf : r.expansion? f = some t) :
    (s.substitute f t).fill (r.bodies targets) = s.fill (r.bodies (f :: targets)) := by
  rw [substitute_eq_fill_bodies hf, fill_bodies_append, List.singleton_append]

/-- The full expansion of a definition is a filling with those of the names that it refers to. -/
theorem Expands.eq_fill_bodies {d : Definition} (h : r.Expands d s)
    (htargets : ∀ f, .ref f ∈ d.statement → f ∈ targets) :
    s = d.statement.fill (r.bodies targets) := by
  cases h with
  | @intro _ target body stored expanded =>
      refine Statement.fill_congr fun f hf => ?_
      unfold bodies
      rw [if_pos (htargets f hf)]
      exact (expansion?_eq_some_iff.mpr ⟨target f, stored f hf, expanded f hf⟩).symm

end

end Switching.Registry
