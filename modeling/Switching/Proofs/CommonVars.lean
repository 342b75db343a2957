/-
The variables that a table is over.

A table takes the variables of the largest of its targets and refuses a target that has
one more.  Which of several largest is taken cannot be seen: if one target has the
variables of all, then every largest does, since a set within another and no smaller is
that other.  So the common variables are found exactly if some target has them all, they
are the union of all variables, and neither the order of the targets nor repetitions
matter.  The rule can also be put by size alone: those with the most variables have to agree
on them, and any other has to be a proper part of them.
-/
import Mathlib.Data.List.Induction
import Mathlib.Data.List.Perm.Subperm
import Switching.TruthTable

namespace Switching

namespace LetterSet

variable {s t : LetterSet}

/-- There are no more than the letters of the alphabet. -/
theorem size_le (s : LetterSet) : s.size ≤ 52 := by
  have hall : Letter.all.length = 52 := by decide +kernel
  rw [size, s.canonical, ← hall]
  exact List.length_filter_le _ _

@[simp] theorem size_empty : (∅ : LetterSet).size = 0 := by
  rw [size, List.eq_nil_iff_forall_not_mem.mpr not_mem_empty]
  rfl

/-- A set within another has no more members. -/
theorem size_le_of_subset (h : ∀ v ∈ s, v ∈ t) : s.size ≤ t.size :=
  (s.nodup.subperm h).length_le

/-- A set within another that is no larger is that other. -/
theorem eq_of_subset_of_size_le (h : ∀ v ∈ s, v ∈ t) (hsize : t.size ≤ s.size) : s = t := by
  have hperm := (s.nodup.subperm h).perm_of_length_le hsize
  ext v
  exact hperm.mem_iff

end LetterSet

namespace TruthTable

/-- One of the definitions has the variables of all; none of them asks for nothing. -/
def Shared (ds : List Definition) : Prop :=
  ds = [] ∨ ∃ d ∈ ds, ∀ d' ∈ ds, ∀ v ∈ d'.vars, v ∈ d.vars

/-- The set has the variables of all definitions and no others. -/
def IsUnion (u : LetterSet) (ds : List Definition) : Prop :=
  ∀ v, v ∈ u ↔ ∃ d ∈ ds, v ∈ d.vars

section

variable {ds : List Definition} {d : Definition} {u : LetterSet}

theorem IsUnion.unique {w : LetterSet} (hu : IsUnion u ds) (hw : IsUnion w ds) : u = w := by
  ext v
  rw [hu v, hw v]

/-- Neither the order of the definitions nor their repetitions matter. -/
theorem Shared.congr {es : List Definition} (h : Shared ds) (hmem : ∀ d, d ∈ es ↔ d ∈ ds) :
    Shared es := by
  rcases h with rfl | ⟨d, hd, hall⟩
  · left
    exact List.eq_nil_iff_forall_not_mem.mpr fun d hd => by cases (hmem d).mp hd
  · right
    exact ⟨d, (hmem d).mpr hd, fun d' hd' => hall d' ((hmem d').mp hd')⟩

theorem IsUnion.congr {es : List Definition} (h : IsUnion u ds) (hmem : ∀ d, d ∈ es ↔ d ∈ ds) :
    IsUnion u es := by
  intro v
  rw [h v]
  simp only [hmem]

theorem largest_concat (ds : List Definition) (d : Definition) :
    largest (ds ++ [d]) =
      if (largest ds).size ≤ d.vars.size then d.vars else largest ds := by
  rw [largest, List.foldl_append]
  rfl

theorem size_le_largest (hd : d ∈ ds) : d.vars.size ≤ (largest ds).size := by
  induction ds using List.reverseRecOn with
  | nil => cases hd
  | append_singleton ds last ih =>
      have hkept : (largest ds).size ≤ (largest (ds ++ [last])).size ∧
          last.vars.size ≤ (largest (ds ++ [last])).size := by
        rw [largest_concat]
        split <;> omega
      rcases List.mem_append.mp hd with hd | hd
      · exact Nat.le_trans (ih hd) hkept.1
      · rw [List.mem_singleton.mp hd]
        exact hkept.2

/-- No definition has more variables than `big`, and none behind it has as many. -/
def LastLargest (ds : List Definition) (big : Definition) : Prop :=
  ∃ before after, ds = before ++ big :: after ∧
    (∀ d ∈ before, d.vars.size ≤ big.vars.size) ∧ ∀ d ∈ after, d.vars.size < big.vars.size

/-- The largest set of variables is that of the last among the largest. -/
theorem exists_lastLargest (hds : ds ≠ []) :
    ∃ big, LastLargest ds big ∧ largest ds = big.vars := by
  induction ds using List.reverseRecOn with
  | nil => exact absurd rfl hds
  | append_singleton ds last ih =>
      rw [largest_concat]
      split
      · rename_i hle
        refine ⟨last, ⟨ds, [], rfl, ?_, by simp⟩, rfl⟩
        exact fun d hd => Nat.le_trans (size_le_largest hd) hle
      · rename_i hlt
        have hne : ds ≠ [] := by
          rintro rfl
          simp [largest] at hlt
        obtain ⟨big, ⟨before, after, rfl, hbefore, hafter⟩, hlargest⟩ := ih hne
        refine ⟨big, ⟨before, after ++ [last], by simp, hbefore, ?_⟩, hlargest⟩
        rw [hlargest] at hlt
        intro d hd
        rcases List.mem_append.mp hd with hd | hd
        · exact hafter d hd
        · rw [List.mem_singleton.mp hd]
          omega

theorem LastLargest.mem (h : LastLargest ds d) : d ∈ ds := by
  obtain ⟨before, after, rfl, -⟩ := h
  simp

theorem LastLargest.largest_eq (h : LastLargest ds d) : largest ds = d.vars := by
  obtain ⟨before, after, rfl, hbefore, hafter⟩ := h
  induction after using List.reverseRecOn with
  | nil =>
      rw [largest_concat, if_pos]
      by_cases hnil : before = []
      · rw [hnil]
        exact Nat.zero_le _
      · obtain ⟨big, hbig, hlargest⟩ := exists_lastLargest hnil
        rw [hlargest]
        exact hbefore big hbig.mem
  | append_singleton after last ih =>
      have hkept := ih fun d' hd' => hafter d' (List.mem_append_left _ hd')
      have hsmall := hafter last (by simp)
      rw [← List.cons_append, ← List.append_assoc, largest_concat, hkept, if_neg]
      omega

/-- The largest set is the one that has the variables of all, if there is one. -/
theorem Shared.mem_largest (h : Shared ds) (hd : d ∈ ds) : ∀ v ∈ d.vars, v ∈ largest ds := by
  rcases h with rfl | ⟨big, hbig, hall⟩
  · cases hd
  · obtain ⟨last, hlast, hlargest⟩ := exists_lastLargest (List.ne_nil_of_mem hbig)
    have hsize := size_le_largest hbig
    rw [hlargest] at hsize
    have hsame := LetterSet.eq_of_subset_of_size_le (hall last hlast.mem) hsize
    rw [hlargest, hsame]
    exact hall d hd

theorem isUnion_largest (h : Shared ds) : IsUnion (largest ds) ds := by
  intro v
  constructor
  · intro hv
    have hne : ds ≠ [] := by
      rintro rfl
      exact LetterSet.not_mem_empty v hv
    obtain ⟨d, hd, hlargest⟩ := exists_lastLargest hne
    rw [hlargest] at hv
    exact ⟨d, hd.mem, hv⟩
  · intro hex
    obtain ⟨d, hd, hv⟩ := hex
    exact h.mem_largest hd v hv

/-- What is refused is the first definition that has a variable outside the largest set. -/
theorem commonVars_eq_error {before after : List Definition} {big : Definition}
    (hbig : LastLargest ds big) (hsplit : ds = before ++ d :: after)
    (hwithin : ∀ d' ∈ before, ∀ v ∈ d'.vars, v ∈ big.vars)
    (houtside : ¬ ∀ v ∈ d.vars, v ∈ big.vars) :
    commonVars ds = .error (.variableMismatch big.vars.letters d.vars.letters) := by
  have hfind : ds.find? (fun d => !d.vars.isSubset big.vars) = some d := by
    rw [List.find?_eq_some_iff_append]
    rw [← LetterSet.isSubset_iff] at houtside
    refine ⟨by simpa using houtside, before, after, hsplit, ?_⟩
    intro d' hd'
    simpa using LetterSet.isSubset_iff.mpr (hwithin d' hd')
  simp only [commonVars, hbig.largest_eq, hfind]

theorem commonVars_eq_ok (h : Shared ds) : commonVars ds = .ok (largest ds) := by
  have hnone : ds.find? (fun d => !d.vars.isSubset (largest ds)) = none := by
    rw [List.find?_eq_none]
    intro d hd
    simpa [LetterSet.isSubset_iff] using h.mem_largest hd
  simp only [commonVars, hnone]

/-- Where the definitions share nothing that has all variables, one is the first that has a
variable outside a largest set. -/
theorem exists_outside (h : ¬ Shared ds) :
    ∃ big before d after, LastLargest ds big ∧ ds = before ++ d :: after ∧
      (∀ d' ∈ before, ∀ v ∈ d'.vars, v ∈ big.vars) ∧ ¬ ∀ v ∈ d.vars, v ∈ big.vars := by
  obtain ⟨big, hbig, -⟩ := exists_lastLargest fun hnil => h (.inl hnil)
  cases hfind : ds.find? fun d => !d.vars.isSubset big.vars with
  | none =>
      rw [List.find?_eq_none] at hfind
      refine absurd (.inr ⟨big, hbig.mem, fun d hd => ?_⟩) h
      exact LetterSet.isSubset_iff.mp (by simpa using hfind d hd)
  | some d =>
      obtain ⟨hd, before, after, hsplit, hbefore⟩ := List.find?_eq_some_iff_append.mp hfind
      refine ⟨big, before, d, after, hbig, hsplit, ?_, ?_⟩
      · intro d' hd'
        exact LetterSet.isSubset_iff.mp (by simpa using hbefore d' hd')
      · rw [← LetterSet.isSubset_iff]
        simpa using hd

/-- **The common variables are found exactly if one definition has them all, and they are
the union.** -/
theorem commonVars_eq_ok_iff : commonVars ds = .ok u ↔ Shared ds ∧ IsUnion u ds := by
  by_cases h : Shared ds
  · rw [commonVars_eq_ok h, Except.ok.injEq]
    constructor
    · rintro rfl
      exact ⟨h, isUnion_largest h⟩
    · intro hu
      exact (isUnion_largest h).unique hu.2
  · obtain ⟨_, _, _, _, hbig, hsplit, hwithin, houtside⟩ := exists_outside h
    rw [commonVars_eq_error hbig hsplit hwithin houtside]
    constructor
    · intro hok
      cases hok
    · intro hu
      exact absurd hu.1 h

/-! ### The rule by size -/

/-- No definition has more variables. -/
def IsLargest (ds : List Definition) (big : Definition) : Prop :=
  big ∈ ds ∧ ∀ d ∈ ds, d.vars.size ≤ big.vars.size

/-- The definitions with the most variables have the same ones, and any other has some of
these but not all. -/
structure Ranked (ds : List Definition) : Prop where
  /-- Those that tie for the most variables agree on them. -/
  same : ∀ d d', IsLargest ds d → IsLargest ds d' → d.vars = d'.vars
  /-- What has fewer variables has a proper part of them. -/
  within : ∀ big, IsLargest ds big → ∀ d ∈ ds, d.vars.size < big.vars.size →
    (∀ v ∈ d.vars, v ∈ big.vars) ∧ ∃ v ∈ big.vars, v ∉ d.vars

theorem LastLargest.isLargest (h : LastLargest ds d) : IsLargest ds d := by
  refine ⟨h.mem, ?_⟩
  rw [← h.largest_eq]
  exact fun d' hd' => size_le_largest hd'

/-- A definition that has the variables of all is one of the largest, and each of these has
its variables. -/
theorem IsLargest.vars_eq {big : Definition} (h : IsLargest ds big) (hd : d ∈ ds)
    (hall : ∀ d' ∈ ds, ∀ v ∈ d'.vars, v ∈ d.vars) : big.vars = d.vars :=
  LetterSet.eq_of_subset_of_size_le (hall big h.1) (h.2 d hd)

/-- **One definition has the variables of all exactly if the largest agree and the others are
within them.** -/
theorem shared_iff_ranked : Shared ds ↔ Ranked ds := by
  constructor
  · rintro (rfl | ⟨d, hd, hall⟩)
    · have hnone : ∀ d, ¬ IsLargest [] d := fun d h => List.not_mem_nil h.1
      exact ⟨fun d _ h => absurd h (hnone d), fun d h => absurd h (hnone d)⟩
    · refine ⟨fun d₁ d₂ h₁ h₂ => (h₁.vars_eq hd hall).trans (h₂.vars_eq hd hall).symm, ?_⟩
      intro big hbig d' hd' hsize
      rw [hbig.vars_eq hd hall] at hsize ⊢
      refine ⟨hall d' hd', ?_⟩
      by_contra hnone
      have hback : ∀ v ∈ d.vars, v ∈ d'.vars := by
        intro v hv
        by_contra hout
        exact hnone ⟨v, hv, hout⟩
      exact absurd (LetterSet.size_le_of_subset hback) (Nat.not_le.mpr hsize)
  · intro h
    by_cases hnil : ds = []
    · exact .inl hnil
    · obtain ⟨big, hbig, -⟩ := exists_lastLargest hnil
      have hlargest := hbig.isLargest
      refine .inr ⟨big, hlargest.1, ?_⟩
      intro d hd v hv
      by_cases hsize : d.vars.size < big.vars.size
      · exact (h.within big hlargest d hd hsize).1 v hv
      · have htie : IsLargest ds d :=
          ⟨hd, fun d' hd' => Nat.le_trans (hlargest.2 d' hd') (Nat.le_of_not_lt hsize)⟩
        rwa [h.same big d hlargest htie]

/-- **The variables of a table go by the rule, and the order of its targets is no matter.**
They are found exactly if one target has those of all, which is to say that the largest agree
and the others are proper parts of them; they are then all variables in ascending order, the
same whatever the order of the targets and however often one is repeated.  If they are not
found, a largest set is shown beside the first that is not within it, and no other order of
the targets helps. -/
theorem commonVars_rule (ds : List Definition) :
    ((∃ u, commonVars ds = .ok u) ↔ Shared ds) ∧ (Shared ds ↔ Ranked ds) ∧
    (∀ u, commonVars ds = .ok u →
      IsUnion u ds ∧ (u.letters.Pairwise fun k l => k.char.toNat < l.char.toNat) ∧
      ∀ es, (∀ d, d ∈ es ↔ d ∈ ds) → commonVars es = .ok u) ∧
    ∀ e, commonVars ds = .error e →
      (∃ big before d after, IsLargest ds big ∧ ds = before ++ d :: after ∧
        (∀ d' ∈ before, ∀ v ∈ d'.vars, v ∈ big.vars) ∧ (¬ ∀ v ∈ d.vars, v ∈ big.vars) ∧
        e = .variableMismatch big.vars.letters d.vars.letters) ∧
      ∀ es, (∀ d, d ∈ es ↔ d ∈ ds) → ∃ e', commonVars es = .error e' := by
  have hfound : ∀ ds, (∃ u, commonVars ds = .ok u) ↔ Shared ds := by
    intro ds
    constructor
    · rintro ⟨u, hu⟩
      exact (commonVars_eq_ok_iff.mp hu).1
    · exact fun h => ⟨_, commonVars_eq_ok h⟩
  refine ⟨hfound ds, shared_iff_ranked, ?_, ?_⟩
  · intro u hu
    obtain ⟨hshared, hunion⟩ := commonVars_eq_ok_iff.mp hu
    refine ⟨hunion, u.ascending, ?_⟩
    intro es hmem
    exact commonVars_eq_ok_iff.mpr ⟨hshared.congr hmem, hunion.congr hmem⟩
  · intro e he
    have hunshared : ¬ Shared ds := by
      intro h
      rw [commonVars_eq_ok h] at he
      cases he
    constructor
    · obtain ⟨big, before, d, after, hbig, hsplit, hwithin, houtside⟩ :=
        exists_outside hunshared
      rw [commonVars_eq_error hbig hsplit hwithin houtside, Except.error.injEq] at he
      exact ⟨big, before, d, after, hbig.isLargest, hsplit, hwithin, houtside, he.symm⟩
    · intro es hmem
      cases hes : commonVars es with
      | error e' => exact ⟨e', rfl⟩
      | ok u =>
          have hshared := (commonVars_eq_ok_iff.mp hes).1
          exact absurd (hshared.congr fun d => (hmem d).symm) hunshared

/-! ### What else a table needs -/

/-- Nothing but the variables of the definitions matters. -/
theorem commonVars_map {f : Definition → Definition} (h : ∀ d, (f d).vars = d.vars) :
    commonVars (ds.map f) = commonVars ds := by
  have hlargest : largest (ds.map f) = largest ds := by
    simp only [largest, List.foldl_map, h]
  have hsame : ((fun d => !d.vars.isSubset (largest ds)) ∘ f : Definition → Bool) =
      fun d => !d.vars.isSubset (largest ds) := by
    funext d
    rw [Function.comp_apply, h]
  simp only [commonVars, hlargest, List.find?_map, hsame]
  cases ds.find? fun d => !d.vars.isSubset (largest ds) with
  | none => rfl
  | some d => simp only [Option.map_some, h]

/-- A single definition shares its variables with itself. -/
theorem commonVars_singleton (d : Definition) : commonVars [d] = .ok d.vars := by
  refine commonVars_eq_ok_iff.mpr ⟨.inr ⟨d, List.mem_singleton_self d, ?_⟩, ?_⟩
  · intro d' hd' v hv
    rwa [← List.mem_singleton.mp hd']
  · intro v
    simp

end

end TruthTable

end Switching
