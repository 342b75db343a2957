/-
One name after another.

A definition is written out name by name, and the names come in some order.  What is put in
refers to nothing, so a replacement finds all the references to its name that the statement
had at first, and finds no others.  Whatever the order, the replacements come to a filling
with all the bodies at once.  A body that refers to a name would be looked at again if that
name came later, and left alone if it had come before.

The sizes foretold on the way do depend on the order, but each of them adds to the last what
the references to one name add, so none is less than one before it.  The largest is that of
the whole.  A limit that the whole keeps is therefore kept all the way, and a limit that it
exceeds is exceeded on every way.
-/
import Mathlib.Data.List.Induction
import Switching.Proofs.Resolution
import Switching.Proofs.Substitution

namespace Switching.Statement

/-- The statement in which the names of `order` have given way to their bodies, one after
another. -/
def substituteEach (s : Statement) (bodies : Letter → Statement) (order : List Letter) :
    Statement :=
  order.foldl (fun t f => (t.substituteCounted f (bodies f)).2) s

/-- The size foretold for the replacement of `f` once the names `before` have given way. -/
def sizeForetold? (s : Statement) (bodies : Letter → Statement) (before : List Letter)
    (f : Letter) : Option Nat :=
  (s.substituteEach bodies before).substitutedSize? f (bodies f)

section

variable {s : Statement} {bodies : Letter → Statement} {names : LetterSet}
  {order before front between : List Letter} {f g : Letter}

theorem substituteEach_append (s : Statement) (bodies : Letter → Statement)
    (before after : List Letter) : s.substituteEach bodies (before ++ after) =
      (s.substituteEach bodies before).substituteEach bodies after :=
  List.foldl_append

theorem substituteEach_concat (s : Statement) (bodies : Letter → Statement)
    (before : List Letter) (f : Letter) : s.substituteEach bodies (before ++ [f]) =
      (s.substituteEach bodies before).substitute f (bodies f) := by
  rw [substituteEach_append]
  exact congrArg Prod.snd (substituteCounted_eq _ f (bodies f))

/-! ### All at once -/

/-- **One name after another comes to all of them at once**, if no body refers to anything. -/
theorem substituteEach_eq_fill (h : ∀ f ∈ order, ∀ g, .ref g ∉ bodies f) (s : Statement) :
    s.substituteEach bodies order = s.fill (among (fun f => some (bodies f)) order) := by
  induction order using List.reverseRecOn with
  | nil => exact (fill_among_nil s).symm
  | append_singleton order f ih =>
      have hfront : ∀ f ∈ order, ∀ g, .ref g ∉ bodies f := fun f hf =>
        h f (List.mem_append_left _ hf)
      have hlast : ∀ t : Statement, t.substitute f (bodies f) =
          t.fill (among (fun f => some (bodies f)) [f]) := substitute_eq_fill_among rfl
      rw [substituteEach_concat, ih hfront, hlast, fill_among_append]
      intro g hg b hb
      rw [← Option.some.inj hb]
      exact hfront g hg

/-- A name that has not had its turn is referred to as often as at first. -/
theorem count_ref_substituteEach (h : ∀ f ∈ order, ∀ g, .ref g ∉ bodies f) (hf : f ∉ order)
    (s : Statement) : (s.substituteEach bodies order).count (.ref f) = s.count (.ref f) := by
  rw [substituteEach_eq_fill h]
  refine count_ref_fill (if_neg hf) ?_ s
  intro g b hb
  unfold among at hb
  split at hb
  · rename_i hg
    rw [← Option.some.inj hb]
    exact h g hg f
  · cases hb

/-! ### Sizes on the way -/

/-- Each reference to the name whose turn it is adds one more than its body has. -/
theorem length_substituteEach_concat (h : ∀ g ∈ before, ∀ k, .ref k ∉ bodies g)
    (hf : f ∉ before) (s : Statement) : (s.substituteEach bodies (before ++ [f])).length =
      s.count (.ref f) * ((bodies f).length + 1) + (s.substituteEach bodies before).length := by
  rw [substituteEach_concat, length_substitute, occurrences, count_ref_substituteEach h hf]

/-- So the statement becomes longer if there is one, and stays as it is otherwise. -/
theorem length_lt_substituteEach_concat_iff (h : ∀ g ∈ before, ∀ k, .ref k ∉ bodies g)
    (hf : f ∉ before) : (s.substituteEach bodies before).length <
      (s.substituteEach bodies (before ++ [f])).length ↔ .ref f ∈ s := by
  have hadded : 0 < s.count (.ref f) * ((bodies f).length + 1) ↔ 0 < s.count (.ref f) :=
    Nat.mul_pos_iff_of_pos_right (Nat.succ_pos _)
  rw [length_substituteEach_concat h hf, ← List.count_pos_iff, ← hadded]
  omega

/-- No way makes a statement shorter. -/
theorem length_le_length_substituteEach (s : Statement) (bodies : Letter → Statement)
    (order : List Letter) : s.length ≤ (s.substituteEach bodies order).length := by
  induction order using List.reverseRecOn with
  | nil => exact Nat.le_refl _
  | append_singleton order f ih =>
      rw [substituteEach_concat, length_substitute]
      exact Nat.le_add_left_of_le ih

theorem length_substituteEach_le_append (s : Statement) (bodies : Letter → Statement)
    (before after : List Letter) : (s.substituteEach bodies before).length ≤
      (s.substituteEach bodies (before ++ after)).length := by
  rw [substituteEach_append]
  exact length_le_length_substituteEach ..

/-- What is foretold is the size of the next statement, if that fits in a word. -/
theorem sizeForetold?_eq (s : Statement) (bodies : Letter → Statement) (before : List Letter)
    (f : Letter) : s.sizeForetold? bodies before f =
      word? (s.substituteEach bodies (before ++ [f])).length := by
  rw [sizeForetold?, substitutedSize?_eq_word?, substituteEach_concat]

/-- If the size of a statement fits in a word, so did every size foretold on the way to it. -/
theorem exists_sizeForetold?_le
    (h : (s.substituteEach bodies (front ++ g :: between)).length ≤ maxCount) :
    ∃ m, s.sizeForetold? bodies front g = some m ∧
      m ≤ (s.substituteEach bodies (front ++ g :: between)).length := by
  have hle := length_substituteEach_le_append s bodies (front ++ [g]) between
  rw [← List.append_cons] at hle
  refine ⟨(s.substituteEach bodies (front ++ [g])).length, ?_, hle⟩
  rw [sizeForetold?_eq, word?_eq_some_iff]
  exact ⟨rfl, Nat.le_trans hle h⟩

theorem substituteEach_eq_fill_of_perm (hclear : ∀ f ∈ order, ∀ g, .ref g ∉ bodies f)
    (horder : order.Perm names.letters) (s : Statement) : s.substituteEach bodies order =
      s.fill (fun f => if f ∈ names then some (bodies f) else none) := by
  rw [substituteEach_eq_fill hclear]
  refine fill_congr fun f _ => ?_
  simp only [among, horder.mem_iff, LetterSet.mem_def]

/-- **The order of replacements does not matter.**  Whatever the order in which the names of a
set give way to bodies that refer to nothing, it is as if all had done so at once.  The size
foretold for a replacement is that of the statement after it, which is no shorter than the one
before and longer exactly if the name is referred to; and if that size fits in a word, then so
do all that were foretold before it, and none of them is larger. -/
theorem substituteEach_any_order (hbodies : ∀ f ∈ names, (bodies f).hasReferences = false)
    (horder : order.Perm names.letters) (s : Statement) :
    s.substituteEach bodies order =
      s.fill (fun f => if f ∈ names then some (bodies f) else none) ∧
    ∀ before f after, order = before ++ f :: after →
      (∀ n, s.sizeForetold? bodies before f = some n ↔
        n = (s.substituteEach bodies (before ++ [f])).length ∧ n ≤ maxCount) ∧
      (s.substituteEach bodies before).length ≤ (s.substituteEach bodies (before ++ [f])).length ∧
      ((s.substituteEach bodies before).length < (s.substituteEach bodies (before ++ [f])).length ↔
        .ref f ∈ s) ∧
      ∀ n, s.sizeForetold? bodies before f = some n →
        ∀ front g between, before = front ++ g :: between →
          ∃ m, s.sizeForetold? bodies front g = some m ∧ m ≤ n ∧ (.ref f ∈ s → m < n) := by
  have hclear : ∀ f ∈ order, ∀ g, .ref g ∉ bodies f := fun f hf =>
    hasReferences_eq_false_iff.mp (hbodies f (horder.mem_iff.mp hf))
  refine ⟨substituteEach_eq_fill_of_perm hclear horder s, ?_⟩
  rintro before f after rfl
  have hbefore : ∀ g ∈ before, ∀ k, .ref k ∉ bodies g := fun g hg =>
    hclear g (List.mem_append_left _ hg)
  have hnew : f ∉ before := fun hf =>
    (List.nodup_append.mp (horder.nodup_iff.mpr names.nodup)).2.2 f hf f
      (List.mem_cons_self ..) rfl
  have hforetold : ∀ n, s.sizeForetold? bodies before f = some n ↔
      n = (s.substituteEach bodies (before ++ [f])).length ∧ n ≤ maxCount := by
    intro n
    rw [sizeForetold?_eq]
    exact word?_eq_some_iff
  have hle := length_substituteEach_le_append s bodies before [f]
  have hlt : (s.substituteEach bodies before).length <
      (s.substituteEach bodies (before ++ [f])).length ↔ .ref f ∈ s :=
    length_lt_substituteEach_concat_iff hbefore hnew
  refine ⟨hforetold, hle, hlt, ?_⟩
  rintro n hn front g between rfl
  obtain ⟨rfl, hfits⟩ := (hforetold n).mp hn
  obtain ⟨m, hm, hmle⟩ := exists_sizeForetold?_le (Nat.le_trans hle hfits)
  exact ⟨m, hm, Nat.le_trans hmle hle, fun hf => Nat.lt_of_le_of_lt hmle (hlt.mpr hf)⟩

/-- **A limit is kept on every way or on none**: all the sizes foretold are within it exactly if
the size of the whole is allowed.  A size that cannot be counted is taken for the largest
count. -/
theorem sizeForetold?_within_iff {r : Resolver} (hclear : ∀ f ∈ order, ∀ g, .ref g ∉ bodies f)
    (horder : order.Perm names.letters) (hne : order ≠ []) (s : Statement) :
    (∀ before f after, order = before ++ f :: after →
      (s.sizeForetold? bodies before f).getD maxCount ≤ r.limit) ↔
    r.Allows (s.fill fun f => if f ∈ names then some (bodies f) else none).length := by
  have hsize : ∀ before f, (s.sizeForetold? bodies before f).getD maxCount ≤ r.limit ↔
      r.Allows (s.substituteEach bodies (before ++ [f])).length := by
    intro before f
    rw [sizeForetold?, getD_substitutedSize?, substituteEach_concat, Resolver.Allows]
  rw [← substituteEach_eq_fill_of_perm hclear horder]
  constructor
  · intro h
    -- the last size is that of the whole
    have hlast := h order.dropLast (order.getLast hne) [] (List.dropLast_concat_getLast hne).symm
    rwa [hsize, List.dropLast_concat_getLast] at hlast
  · rintro h before f after rfl
    have hle := length_substituteEach_le_append s bodies (before ++ [f]) after
    rw [← List.append_cons] at hle
    exact (hsize before f).mpr (h.mono hle)

end

/-! ### An example -/

/-- The statement `$g+$f*$g+$a`. -/
def scattered : Statement :=
  [.ref .g, .op .or, .ref .f, .op .and, .ref .g, .op .or, .ref .a]

/-- The body `a+b` for `f`, and `b` for any other name. -/
def parts (l : Letter) : Statement :=
  if l = .f then [.var .a, .op .or, .var .b] else [.var .b]

/-- Where `f` gives way after `g`, eleven tokens are foretold and then fifteen. -/
theorem substituteEach_any_order_scattered :
    (∀ f ∈ LetterSet.ofList [.f, .g], (parts f).hasReferences = false) ∧
    [Letter.g, .f].Perm (LetterSet.ofList [.f, .g]).letters ∧
    scattered.substituteEach parts [.g, .f] =
      scattered.fill (fun f => if f ∈ LetterSet.ofList [.f, .g] then some (parts f) else none) ∧
    scattered.sizeForetold? parts [.g] .f = some 15 ∧
    ∃ m, scattered.sizeForetold? parts [] .g = some m ∧ scattered.length < m ∧ m < 15 := by
  have hbodies : ∀ f ∈ LetterSet.ofList [.f, .g], (parts f).hasReferences = false := by
    intro f _
    unfold parts
    split <;> rfl
  have horder : [Letter.g, .f].Perm (LetterSet.ofList [.f, .g]).letters := List.Perm.swap ..
  obtain ⟨hwhole, hsteps⟩ := substituteEach_any_order hbodies horder scattered
  obtain ⟨hforetold, -, -, hearlier⟩ := hsteps [.g] .f [] rfl
  have hlast : scattered.sizeForetold? parts [.g] .f = some 15 :=
    (hforetold 15).mpr ⟨rfl, by decide⟩
  obtain ⟨m, hm, -, hlt⟩ := hearlier 15 hlast [] .g [] rfl
  obtain ⟨hfirst, -, hgrows, -⟩ := hsteps [] .g [.f] rfl
  refine ⟨hbodies, horder, hwhole, hlast, m, hm, ?_, hlt (by decide)⟩
  rw [((hfirst m).mp hm).1]
  exact hgrows.mpr (by decide)

/-- If a body refers to a name, it makes a difference whether that comes before or after. -/
example :
    let bodies (l : Letter) : Statement := if l = .f then [.ref .g] else [.var .a]
    substituteEach [.ref .f] bodies [.f, .g] ≠ substituteEach [.ref .f] bodies [.g, .f] := by
  decide

end Switching.Statement
