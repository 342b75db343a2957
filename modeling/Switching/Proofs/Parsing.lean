/-
The reader accepts the grammar, within its limits, and nothing else.

One direction follows the reader.  Whatever it takes off the front of the tokens is an
operand of the level it was asked for, with the tree that it gives, and a chain that it
goes on with prolongs the chain it was handed.  Both are one induction along the
recursion of `operand` and `chain`.

The other direction follows the derivation.  The reader looks at one token to decide
whether a chain goes on, so it stops where the grammar does only if the token that comes
next binds no tighter than the level: that is `Stops`.  A chain is derived from its last
operand backwards but read forwards, and what bridges the two is to say of a part of a
chain that reading it leads to the same state as beginning with its tree in hand.

The limits need no argument of their own.  `Within` carries them along a derivation, and
each of its rules asks for exactly what the reader checks at that place.
-/
import Switching.Expr.Parser
import Switching.Proofs.Grammar

namespace Switching

/-- A derivation that keeps to the limits when `nesting` parentheses and negations are
open around it. -/
def Within (level : Option Connective) (nesting : Nat) (s : Statement) (e : Expr) : Prop :=
  ∃ n, Derives level s e n ∧ nesting + n ≤ maxNesting ∧ e.depth ≤ maxDepth

namespace Within

variable {level : Option Connective} {op : Connective} {nesting : Nat} {s t : Statement}
  {e l r : Expr}

theorem var (v : Letter) (h : nesting ≤ maxNesting) : Within none nesting [.var v] (.var v) :=
  ⟨0, .var v, h, by simp [Expr.depth, maxDepth]⟩

theorem not (h : Within none (nesting + 1) s e) (hdepth : e.depth < maxDepth) :
    Within none nesting (.not :: s) (.not e) := by
  obtain ⟨n, hd, hn, -⟩ := h
  exact ⟨n + 1, .not hd, by omega, hdepth⟩

theorem group (h : Within (some .or) (nesting + 1) s e) :
    Within none nesting (.lparen :: (s ++ [.rparen])) e := by
  obtain ⟨n, hd, hn, hdepth⟩ := h
  exact ⟨n + 1, .group hd, by omega, hdepth⟩

theorem first (h : Within op.tighter nesting s e) : Within (some op) nesting s e := by
  obtain ⟨n, hd, hn, hdepth⟩ := h
  exact ⟨n, .first hd, hn, hdepth⟩

theorem next (hl : Within (some op) nesting s l) (hr : Within op.tighter nesting t r)
    (hdepth : max l.depth r.depth < maxDepth) :
    Within (some op) nesting (s ++ .op op :: t) (.binary op l r) := by
  obtain ⟨m, hdl, hm, -⟩ := hl
  obtain ⟨n, hdr, hn, -⟩ := hr
  exact ⟨max m n, .next hdl hdr, by omega, hdepth⟩

end Within

namespace Expr

/-! ### What is read is derived -/

namespace Measured

theorem negated_eq_ok {m tree : Measured} {total : Nat} {rest : Statement}
    (h : m.negated total rest = .ok tree) :
    tree.expr = .not m.expr ∧ m.expr.depth < maxDepth := by
  unfold negated at h
  split at h
  · rename_i hlt
    rw [Except.ok.injEq] at h
    rw [← h, ← m.depth_eq]
    exact ⟨rfl, hlt⟩
  · cases h

theorem negated_of_lt {m : Measured} (total : Nat) (rest : Statement)
    (h : m.expr.depth < maxDepth) :
    ∃ tree, m.negated total rest = .ok tree ∧ tree.expr = .not m.expr := by
  rw [negated, if_pos (by rwa [m.depth_eq])]
  exact ⟨_, rfl, rfl⟩

theorem joined_eq_ok {op : Connective} {l r tree : Measured} {total : Nat} {rest : Statement}
    (h : joined op l r total rest = .ok tree) :
    tree.expr = .binary op l.expr r.expr ∧ max l.expr.depth r.expr.depth < maxDepth := by
  unfold joined at h
  split at h
  · rename_i hlt
    rw [Except.ok.injEq] at h
    rw [← h, ← l.depth_eq, ← r.depth_eq]
    exact ⟨rfl, hlt⟩
  · cases h

theorem joined_of_lt (op : Connective) {l r : Measured} (total : Nat) (rest : Statement)
    (h : max l.expr.depth r.expr.depth < maxDepth) :
    ∃ tree, joined op l r total rest = .ok tree ∧ tree.expr = .binary op l.expr r.expr := by
  rw [joined, if_pos (by rwa [l.depth_eq, r.depth_eq])]
  exact ⟨_, rfl, rfl⟩

end Measured

theorem Parsed.closed_eq_ok {bound total : Nat} {inner : Parsed bound}
    {p : Parsed (bound + 1)} (h : inner.closed total = .ok p) :
    p.tree = inner.tree ∧ inner.rest = .rparen :: p.rest := by
  obtain ⟨tree, rest, hlt⟩ := inner
  unfold closed at h
  split at h
  · rename_i after hlt' hrest _
    rw [Except.ok.injEq] at h
    subst h
    exact ⟨rfl, hrest⟩
  · cases h

/-- **What the reader takes off the front of the tokens is derived**, and a chain it goes
on with prolongs the chain it was handed. -/
theorem read_sound (total : Nat) :
    (∀ (level : Option Connective) (nesting : Nat) (s : Statement),
      nesting ≤ maxNesting → ∀ p, operand total level nesting s = .ok p →
        ∃ used, s = used ++ p.rest ∧ Within level nesting used p.tree.expr) ∧
    (∀ (op : Connective) (nesting : Nat) (left : Measured) (s : Statement) (bound : Nat)
      (h : s.length < bound), nesting ≤ maxNesting →
        ∀ before p, Within (some op) nesting before left.expr →
          chain total op nesting left s bound h = .ok p →
          ∃ used, s = used ++ p.rest ∧
            Within (some op) nesting (before ++ used) p.tree.expr) := by
  apply operand.mutual_induct total
  case case2 =>
    intro nesting s op first hfirst ihfirst ihchain hn p hp
    rw [operand, hfirst] at hp
    obtain ⟨before, hs, hbefore⟩ := ihfirst hn first hfirst
    obtain ⟨used, hrest, hused⟩ := ihchain hn before p hbefore.first hp
    exact ⟨before ++ used, by rw [List.append_assoc, ← hrest, ← hs], hused⟩
  case case4 =>
    intro nesting v rest hn p hp
    rw [operand, Except.ok.injEq] at hp
    rw [← hp]
    exact ⟨[.var v], rfl, .var v hn⟩
  case case7 =>
    intro nesting rest hlt inner hinner tree hneg ih hn p hp
    rw [operand, if_pos hlt, hinner] at hp
    simp only [hneg, Except.ok.injEq] at hp
    rw [← hp]
    obtain ⟨used, hrest, hused⟩ := ih hlt inner hinner
    obtain ⟨htree, hdepth⟩ := Measured.negated_eq_ok hneg
    exact ⟨.not :: used, by rw [List.cons_append, ← hrest], htree ▸ hused.not hdepth⟩
  case case10 =>
    intro nesting rest hlt inner hinner ih hn p hp
    rw [operand, if_pos hlt, hinner] at hp
    obtain ⟨used, hrest, hused⟩ := ih hlt inner hinner
    obtain ⟨htree, hclose⟩ := Parsed.closed_eq_ok hp
    rw [hclose] at hrest
    refine ⟨.lparen :: (used ++ [.rparen]), ?_, htree ▸ hused.group⟩
    rw [List.cons_append, List.append_assoc]
    exact congrArg (Token.lparen :: ·) hrest
  case case16 =>
    intro nesting left bound op rest h right tree hright hjoin _ ihright ihchain hn before p hb hp
    rw [chain, if_pos rfl, hright] at hp
    simp only [hjoin] at hp
    obtain ⟨used, hrest, hused⟩ := ihright hn right hright
    obtain ⟨htree, hdepth⟩ := Measured.joined_eq_ok hjoin
    obtain ⟨later, hlater, hall⟩ := ihchain hn _ p (htree ▸ hb.next hused hdepth) hp
    refine ⟨.op op :: (used ++ later), ?_, ?_⟩
    · rw [hrest, hlater]
      simp
    · rwa [List.append_assoc, List.cons_append] at hall
  case case17 =>
    intro op nesting left bound c rest h hne _ _ before p hb hp
    rw [chain, if_neg hne, Except.ok.injEq] at hp
    rw [← hp]
    exact ⟨[], rfl, by rwa [List.append_nil]⟩
  case case18 =>
    intro op nesting left bound rest h hother _ _ before p hb hp
    rw [chain, Except.ok.injEq] at hp
    · rw [← hp]
      exact ⟨[], rfl, by rwa [List.append_nil]⟩
    all_goals assumption
  case case8 | case11 =>
    intro nesting rest hge _ p hp
    rw [operand, if_neg hge] at hp
    cases hp
  -- In what is left a part is refused, and with it the whole.
  all_goals
    intros
    simp_all [operand, chain]

/-- A statement that is read as an expression is derived, within the limits. -/
theorem parse_sound {s : Statement} {e : Expr} (h : parse s = .ok e) :
    Within (some .or) 0 s e := by
  unfold parse at h
  split at h
  · cases h
  · split at h
    · cases h
    · rename_i tree hlt hread
      rw [Except.ok.injEq] at h
      obtain ⟨used, hs, hused⟩ := (read_sound s.length).1 _ _ _ (Nat.zero_le _) _ hread
      rw [List.append_nil] at hs
      rw [hs, ← h]
      exact hused
    · cases h

/-! ### What is derived is read

`Reads` and `Continues` say what reading gives, with the proofs that the reader carries
left out.
-/

/-- Reading an operand off the tokens `s` gives the tree `e` and leaves `rest`. -/
def Reads (total : Nat) (level : Option Connective) (nesting : Nat) (s : Statement) (e : Expr)
    (rest : Statement) : Prop :=
  ∃ p, operand total level nesting s = .ok p ∧ p.tree.expr = e ∧ p.rest = rest

/-- Going on with a chain whose operands so far have the tree `left` gives `e` and leaves
`rest`. -/
def Continues (total : Nat) (op : Connective) (nesting : Nat) (left : Expr) (s : Statement)
    (e : Expr) (rest : Statement) : Prop :=
  ∀ (m : Measured) (bound : Nat) (h : s.length < bound), m.expr = left →
    ∃ p, chain total op nesting m s bound h = .ok p ∧ p.tree.expr = e ∧ p.rest = rest

/-- No connective that a level could go on with comes next. -/
def Stops (level : Option Connective) (rest : Statement) : Prop :=
  ∀ c after, rest = .op c :: after → levelRank level ≤ c.rank

theorem stops_tighter (op : Connective) (s : Statement) : Stops op.tighter (.op op :: s) := by
  intro c after h
  rw [List.cons.injEq, Token.op.injEq] at h
  have := levelRank_tighter op
  rw [← h.1]
  exact Nat.le_of_lt_succ this

theorem Stops.tighter {op : Connective} {rest : Statement} (h : Stops (some op) rest) :
    Stops op.tighter rest := by
  intro c after hc
  have := levelRank_tighter op
  have := h c after hc
  omega

section

variable {total nesting : Nat} {level : Option Connective} {op : Connective}
  {s mid rest : Statement} {e l r : Expr}

theorem reads_var (v : Letter) : Reads total none nesting (.var v :: rest) (.var v) rest := by
  refine ⟨⟨.var v, rest, Nat.lt_succ_self _⟩, ?_, rfl, rfl⟩
  rw [operand]

theorem reads_not (hn : nesting < maxNesting) (hdepth : e.depth < maxDepth)
    (h : Reads total none (nesting + 1) s e rest) :
    Reads total none nesting (.not :: s) (.not e) rest := by
  obtain ⟨inner, hread, rfl, rfl⟩ := h
  obtain ⟨tree, hneg, htree⟩ := Measured.negated_of_lt total inner.rest hdepth
  refine ⟨⟨tree, inner.rest, Nat.lt_succ_of_lt inner.rest_lt⟩, ?_, htree, rfl⟩
  rw [operand, if_pos hn, hread]
  simp only [hneg]

theorem reads_group (hn : nesting < maxNesting)
    (h : Reads total (some .or) (nesting + 1) s e (.rparen :: rest)) :
    Reads total none nesting (.lparen :: s) e rest := by
  obtain ⟨⟨tree, left, hlt⟩, hread, rfl, rfl⟩ := h
  refine ⟨⟨tree, rest, ?_⟩, ?_, rfl, rfl⟩
  · exact Nat.lt_trans (Nat.lt_succ_self _) (Nat.lt_succ_of_lt hlt)
  · rw [operand, if_pos hn, hread]
    rfl

theorem reads_chain (hfirst : Reads total op.tighter nesting s l mid)
    (hgo : Continues total op nesting l mid e rest) :
    Reads total (some op) nesting s e rest := by
  obtain ⟨first, hread, hl, rfl⟩ := hfirst
  obtain ⟨p, hchain, he, hrest⟩ := hgo first.tree s.length first.rest_lt hl
  refine ⟨p, ?_, he, hrest⟩
  rw [operand, hread]
  exact hchain

theorem continues_next (hright : Reads total op.tighter nesting s r mid)
    (hdepth : max l.depth r.depth < maxDepth)
    (hgo : Continues total op nesting (.binary op l r) mid e rest) :
    Continues total op nesting l (.op op :: s) e rest := by
  intro m bound h hm
  subst hm
  obtain ⟨right, hread, rfl, rfl⟩ := hright
  obtain ⟨tree, hjoin, htree⟩ := Measured.joined_of_lt op total right.rest hdepth
  obtain ⟨p, hchain, he, hrest⟩ := hgo tree bound
    (Nat.lt_trans right.rest_lt (Nat.lt_of_succ_lt h)) htree
  refine ⟨p, ?_, he, hrest⟩
  rw [chain, if_pos rfl, hread]
  simp only [hjoin]
  exact hchain

theorem continues_stop (hstop : Stops (some op) rest) :
    Continues total op nesting l rest l rest := by
  intro m bound h hm
  refine ⟨⟨m, rest, h⟩, ?_, hm, rfl⟩
  unfold chain
  split
  · rename_i c after _
    have hne : c ≠ op := by
      rintro rfl
      exact absurd (hstop c after rfl) (Nat.not_succ_le_self _)
    rw [if_neg hne]
  · rfl

end

/-- Reading a derived operand, whatever stands behind it.  An operand of a chain is read
to the end of the chain, so all that can be said of it alone is where reading goes on. -/
def Completes (total : Nat) : Option Connective → Statement → Expr → Nat → Prop
  | none, s, e, n => ∀ nesting rest, nesting + n ≤ maxNesting →
      Reads total none nesting (s ++ rest) e rest
  | some op, s, e, n => ∀ nesting mid e' rest, nesting + n ≤ maxNesting →
      Stops op.tighter mid → Continues total op nesting e mid e' rest →
      Reads total (some op) nesting (s ++ mid) e' rest

/-- Before a token that its level stops at, a derived operand is read as a whole. -/
theorem Completes.reads {total nesting n : Nat} {level : Option Connective}
    {s rest : Statement} {e : Expr} (h : Completes total level s e n)
    (hn : nesting + n ≤ maxNesting) (hstop : Stops level rest) :
    Reads total level nesting (s ++ rest) e rest := by
  cases level with
  | none => exact h nesting rest hn
  | some op => exact h nesting rest e rest hn hstop.tighter (continues_stop hstop)

theorem read_complete (total : Nat) {level : Option Connective} {s : Statement} {e : Expr}
    {n : Nat} (h : Derives level s e n) (hdepth : e.depth ≤ maxDepth) :
    Completes total level s e n := by
  induction h with
  | var v =>
      intro nesting rest _
      exact reads_var v
  | not _ ih =>
      intro nesting rest hn
      rw [Expr.depth] at hdepth
      exact reads_not (by omega) hdepth (ih (by omega) (nesting + 1) rest (by omega))
  | @group s e n _ ih =>
      intro nesting rest hn
      have hclose : Stops (some .or) (.rparen :: rest) := by
        intro c after hc
        cases hc
      rw [List.cons_append, List.append_assoc]
      exact reads_group (by omega) ((ih hdepth).reads (by omega) hclose)
  | first _ ih =>
      intro nesting mid e' rest hn hstop hgo
      exact reads_chain ((ih hdepth).reads hn hstop) hgo
  | @next op s t l r m n _ _ ihl ihr =>
      intro nesting mid e' rest hn hstop hgo
      rw [Expr.depth] at hdepth
      have hright : Reads total op.tighter nesting (t ++ mid) r mid :=
        (ihr (by omega)).reads (by omega) hstop
      rw [List.append_assoc, List.cons_append]
      exact ihl (by omega) nesting _ e' rest (by omega) (stops_tighter op _)
        (continues_next hright (by omega) hgo)

/-- A statement that is derived within the limits is read as its tree. -/
theorem parse_complete {s : Statement} {e : Expr} (h : Within (some .or) 0 s e) :
    parse s = .ok e := by
  obtain ⟨n, hd, hn, hdepth⟩ := h
  have hend : Stops (some .or) [] := by
    intro c after hc
    cases hc
  have hreads := (read_complete s.length hd hdepth).reads hn hend
  rw [List.append_nil] at hreads
  obtain ⟨⟨tree, rest, hlt⟩, hread, he, hrest⟩ := hreads
  cases s with
  | nil => exact absurd rfl hd.ne_nil
  | cons t s =>
      simp only [parse, hread]
      subst hrest he
      rfl

/-- **A statement is read as an expression exactly if the grammar derives the expression
from it, nowhere with more than `maxNesting` parentheses and negations open at once, and
the expression is no deeper than `maxDepth`.** -/
theorem parse_eq_ok_iff {s : Statement} {e : Expr} :
    parse s = .ok e ↔
      ∃ n, Derives (some .or) s e n ∧ n ≤ maxNesting ∧ e.depth ≤ maxDepth := by
  constructor
  · intro h
    obtain ⟨n, hd, hn, hdepth⟩ := parse_sound h
    exact ⟨n, hd, by omega, hdepth⟩
  · intro hex
    obtain ⟨n, hd, hn, hdepth⟩ := hex
    exact parse_complete ⟨n, hd, by omega, hdepth⟩

end Expr

end Switching
