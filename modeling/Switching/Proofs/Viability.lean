/-
Which tokens can begin a sentence, and where the reader finds fault.

A sentence is what the grammar derives, whatever the limits say.  Some tokens are *viable*
if more can be put behind them so that a sentence results.  That is a question about all
sentences at once, but reading from left to right two things answer it: whether an operand
is due or has just ended, and how many parentheses are open.  Such a `Place` allows some
tokens and leads on behind each of them.  The places say the same as the grammar: a
sentence leads from the front to behind an operand with nothing open, and whatever leads to
some place can be completed from there.

The second half of this is the one with an argument in it, because the grammar is read from
its derivations and not from left to right.  `Opened` keeps what was read as a stack of
beginnings that await an operand, one for each open parenthesis.  A token prolongs the last
of them, or lays one more on top, or closes a parenthesis and hands what it encloses to the
beginning below.

The reader's faults are then found along its recursion.  It always stands at a place, and
what it refuses there is a token that the place does not allow, or the end, or what exceeds
a limit.
-/
import Switching.Proofs.Parsing
import Switching.Proofs.Resolution

namespace Switching

/-! ### Sentences -/

namespace Statement

/-- The tokens are a sentence, however much is open in them and however deep their tree is. -/
def IsSentence (s : Statement) : Prop :=
  ∃ e n, Derives (some .or) s e n

/-- The tokens can be prolonged to a sentence. -/
def Viable (s : Statement) : Prop :=
  ∃ t, IsSentence (s ++ t)

variable {s t : Statement}

theorem IsSentence.viable (h : s.IsSentence) : s.Viable :=
  ⟨[], by rwa [List.append_nil]⟩

/-- What is viable was viable before its last tokens came. -/
theorem Viable.of_append (h : (s ++ t).Viable) : s.Viable := by
  obtain ⟨u, hu⟩ := h
  exact ⟨t ++ u, by rwa [← List.append_assoc]⟩

end Statement

/-! ### Places -/

/-- Where reading stands between two tokens. -/
inductive Place
  /-- An operand is due, and so many parentheses are open. -/
  | before (opened : Nat)
  /-- An operand has ended, and so many parentheses are open. -/
  | behind (opened : Nat)

namespace Place

/-- The number of parentheses that are open. -/
def opened : Place → Nat
  | before n | behind n => n

/-- The place behind a token, if the token is allowed. -/
def next : Place → Token → Option Place
  | before n, .var _ => some (behind n)
  | before n, .not => some (before n)
  | before n, .lparen => some (before (n + 1))
  | behind n, .op _ => some (before n)
  | behind (n + 1), .rparen => some (behind n)
  | _, _ => none

/-- The place behind some tokens, if each of them is allowed where it stands. -/
def after (p : Place) (s : Statement) : Option Place :=
  s.foldlM next p

@[simp] theorem after_nil (p : Place) : p.after [] = some p := rfl

theorem after_cons (p : Place) (t : Token) (s : Statement) :
    p.after (t :: s) = (p.next t).bind (·.after s) := rfl

theorem after_append (p : Place) (s t : Statement) :
    p.after (s ++ t) = (p.after s).bind (·.after t) :=
  List.foldlM_append

variable {p q : Place} {s t : Statement}

theorem after_trans {u : Place} (h : p.after s = some q) (h' : q.after t = some u) :
    p.after (s ++ t) = some u := by
  rw [after_append, h]
  exact h'

/-- A place keeps count of the parentheses. -/
theorem openAfter_of_after (h : p.after s = some q) :
    s.openAfter p.opened = some q.opened := by
  induction s generalizing p with
  | nil =>
      rw [after_nil, Option.some.injEq] at h
      rw [h]
      rfl
  | cons t s ih =>
      rw [after_cons] at h
      obtain ⟨u, hu, h⟩ := Option.bind_eq_some_iff.mp h
      have hrest := ih h
      -- the count goes on from the next place as the place does
      cases p with
      | before n => cases t <;> cases hu <;> exact hrest
      | behind n => cases t <;> cases n <;> cases hu <;> exact hrest

/-- What completes a sentence from a place: an operand if one is due, and the parentheses. -/
def completion : Place → Statement
  | before n => .var .a :: List.replicate n .rparen
  | behind n => List.replicate n .rparen

theorem after_replicate (n : Nat) :
    (behind n).after (List.replicate n .rparen) = some (behind 0) := by
  induction n with
  | zero => rfl
  | succ n ih => exact ih

theorem after_completion (p : Place) : p.after p.completion = some (behind 0) := by
  cases p with
  | before n => exact after_replicate n
  | behind n => exact after_replicate n

end Place

/-- A derived operand leads from before it to behind it. -/
theorem Derives.after {level : Option Connective} {s : Statement} {e : Expr} {m : Nat}
    (h : Derives level s e m) : ∀ n, (Place.before n).after s = some (.behind n) := by
  induction h with
  | var v =>
      intro n
      rfl
  | not _ ih =>
      intro n
      exact ih n
  | group _ ih =>
      intro n
      exact Place.after_trans (ih (n + 1)) rfl
  | first _ ih => exact ih
  | next _ _ ihl ihr =>
      intro n
      exact Place.after_trans (ihl n) (ihr n)

/-! ### From places to sentences -/

/-- A chain goes on with one more operand behind any connective that binds no looser: there is
a place on its right side where it can be put in. -/
theorem Derives.prolong {level : Option Connective} {op : Connective} {s t : Statement}
    {e r : Expr} {m n : Nat} (h : Derives level s e m) (ht : Derives none t r n)
    (hop : op.rank < Expr.levelRank level) :
    ∃ e' k, Derives level (s ++ .op op :: t) e' k := by
  have hrank : ∀ {l : Connective}, op.rank < Expr.levelRank (some l) → l ≠ op →
      op.rank < Expr.levelRank l.tighter := by
    intro l
    cases l <;> cases op <;> simp [Expr.levelRank, Connective.rank, Connective.tighter]
  induction h with
  | var | not | group => exact absurd hop (Nat.not_lt_zero _)
  | @first l s e m operand ih =>
      by_cases hl : l = op
      · subst hl
        exact ⟨_, _, .next (.first operand) (.of_tightest ht _)⟩
      · obtain ⟨e', k, hd⟩ := ih (hrank hop hl)
        exact ⟨e', k, .first hd⟩
  | @next l s u el er m k left right _ ihr =>
      by_cases hl : l = op
      · subst hl
        exact ⟨_, _, .next (.next left right) (.of_tightest ht _)⟩
      · obtain ⟨e', k', hd⟩ := ihr (hrank hop hl)
        rw [List.append_assoc, List.cons_append]
        exact ⟨_, _, .next left hd⟩

namespace Statement

/-- Whatever operand is put behind the tokens, a sentence results. -/
def Awaits (s : Statement) : Prop :=
  ∀ t e n, Derives none t e n → IsSentence (s ++ t)

/-- Beginnings that await an operand, each of them but the last with a parenthesis behind it:
so many parentheses are open. -/
inductive Opened : Nat → Statement → Prop
  /-- Nothing is open at the front. -/
  | nil : Opened 0 []
  /-- A parenthesis stands where an operand is awaited. -/
  | lparen {n : Nat} {c s : Statement} (outer : Opened n c) (awaits : Awaits s) :
      Opened (n + 1) (c ++ (s ++ [.lparen]))

/-- The tokens stand at a place as the grammar sees it: in the innermost parenthesis that is
open there is a beginning that awaits an operand, or a sentence. -/
def StandsAt (s : Statement) : Place → Prop
  | .before n => ∃ c u, s = c ++ u ∧ Opened n c ∧ Awaits u
  | .behind n => ∃ c u, s = c ++ u ∧ Opened n c ∧ IsSentence u

variable {s u : Statement} {t : Token} {p q : Place}

theorem awaits_nil : Awaits [] :=
  fun _ e n h => ⟨e, n, h.of_tightest _⟩

theorem Awaits.not (h : s.Awaits) : Awaits (s ++ [.not]) := by
  intro u e n hu
  rw [List.append_assoc]
  exact h _ _ _ (.not hu)

theorem Awaits.var (h : s.Awaits) (v : Letter) : IsSentence (s ++ [.var v]) :=
  h _ _ _ (.var v)

theorem Awaits.group (h : s.Awaits) (hu : u.IsSentence) :
    IsSentence (s ++ .lparen :: (u ++ [.rparen])) := by
  obtain ⟨e, n, hu⟩ := hu
  exact h _ _ _ (.group hu)

theorem IsSentence.op (h : s.IsSentence) (op : Connective) : Awaits (s ++ [.op op]) := by
  obtain ⟨e, n, h⟩ := h
  intro u r k hu
  have hrank : op.rank < Expr.levelRank (some .or) := by cases op <;> decide
  obtain ⟨e', m, hd⟩ := h.prolong hu hrank
  rw [List.append_assoc]
  exact ⟨e', m, hd⟩

/-- **An allowed token leads from place to place in the grammar too.** -/
theorem StandsAt.next (h : s.StandsAt p) (ht : p.next t = some q) :
    StandsAt (s ++ [t]) q := by
  cases p with
  | before n =>
      obtain ⟨c, u, rfl, hc, hu⟩ := h
      cases t with
      | var v =>
          cases ht
          exact ⟨c, u ++ [.var v], List.append_assoc .., hc, hu.var v⟩
      | not =>
          cases ht
          exact ⟨c, u ++ [.not], List.append_assoc .., hc, hu.not⟩
      | lparen =>
          cases ht
          refine ⟨c ++ (u ++ [.lparen]), [], ?_, .lparen hc hu, awaits_nil⟩
          simp
      | ref | op | rparen => cases ht
  | behind n =>
      obtain ⟨c, u, rfl, hc, hu⟩ := h
      cases t with
      | op op =>
          cases ht
          exact ⟨c, u ++ [.op op], List.append_assoc .., hc, hu.op op⟩
      | rparen =>
          -- the group becomes the operand that the beginning below it awaits
          cases hc with
          | nil => cases ht
          | @lparen n c b outer awaits =>
              cases ht
              refine ⟨c, b ++ .lparen :: (u ++ [.rparen]), ?_, outer, awaits.group hu⟩
              simp
      | var | ref | not | lparen => cases ht

theorem StandsAt.after (h : s.StandsAt p) (hu : p.after u = some q) : StandsAt (s ++ u) q := by
  induction u generalizing s p with
  | nil =>
      rw [Place.after_nil, Option.some.injEq] at hu
      rwa [List.append_nil, ← hu]
  | cons t u ih =>
      rw [Place.after_cons] at hu
      obtain ⟨p', hp', hu⟩ := Option.bind_eq_some_iff.mp hu
      have hrest := ih (h.next hp') hu
      rwa [List.append_assoc] at hrest

/-- **Sentences are what leads from the front to behind an operand with nothing open.** -/
theorem isSentence_iff : s.IsSentence ↔ (Place.before 0).after s = some (.behind 0) := by
  constructor
  · rintro ⟨e, n, h⟩
    exact h.after 0
  · intro h
    have hfront : StandsAt [] (.before 0) := ⟨[], [], rfl, .nil, awaits_nil⟩
    obtain ⟨c, u, hs, hc, hu⟩ := hfront.after h
    cases hc
    rw [List.nil_append, List.nil_append] at hs
    rwa [hs]

/-- **Viable is what leads from the front to any place.** -/
theorem viable_iff : s.Viable ↔ ∃ p, (Place.before 0).after s = some p := by
  constructor
  · rintro ⟨t, ht⟩
    rw [isSentence_iff, Place.after_append] at ht
    obtain ⟨p, hp, -⟩ := Option.bind_eq_some_iff.mp ht
    exact ⟨p, hp⟩
  · rintro ⟨p, hp⟩
    exact ⟨p.completion, isSentence_iff.mpr (Place.after_trans hp p.after_completion)⟩

theorem viable_of_after (h : (Place.before 0).after s = some p) : s.Viable :=
  viable_iff.mpr ⟨p, h⟩

/-- A token that its place does not allow ends what is viable. -/
theorem not_viable_of_next (h : (Place.before 0).after s = some p) (ht : p.next t = none) :
    ¬ Viable (s ++ [t]) := by
  rw [viable_iff, Place.after_append, h]
  rintro ⟨q, hq⟩
  have hnext : (p.next t).bind (·.after []) = some q := hq
  rw [ht] at hnext
  cases hnext

/-! ### Where the reader finds fault -/

/-- What a fault says of the tokens in which it was found. -/
def Pinpoints (s : Statement) : ParseError → Prop
  | .empty => s = []
  | .missingOperand => s.Viable ∧ ¬ s.IsSentence
  | .noOperand t k => ∃ pre post, s = pre ++ t :: post ∧ k = pre.length + 1 ∧
      Viable pre ∧ ¬ Viable (pre ++ [t])
  | .leftover t k => ∃ pre post, s = pre ++ t :: post ∧ k = pre.length + 1 ∧
      IsSentence pre ∧ ¬ Viable (pre ++ [t])
  | .unclosed k => ∃ pre post, s = pre ++ post ∧ k = pre.length + 1 ∧
      Viable pre ∧ (∃ n, openAfter 0 pre = some (n + 1)) ∧
      ∀ t rest, post = t :: rest → ¬ Viable (pre ++ [t])
  | .unresolved f => ∃ pre post, s = pre ++ .ref f :: post ∧
      Viable pre ∧ ¬ Viable (pre ++ [.ref f])
  | .tooNested k | .tooDeep k => ∃ pre post, s = pre ++ post ∧ k = pre.length ∧ Viable pre

/-- With `rest` left of the tokens, reading stands at a place. -/
def ReadTo (s : Statement) (p : Place) (rest : Statement) : Prop :=
  ∃ pre, s = pre ++ rest ∧ (Place.before 0).after pre = some p

namespace ReadTo

variable {rest : Statement} {n : Nat}

theorem front (s : Statement) : s.ReadTo (.before 0) s :=
  ⟨[], rfl, rfl⟩

theorem after (h : s.ReadTo p (u ++ rest)) (hu : p.after u = some q) : s.ReadTo q rest := by
  obtain ⟨pre, hs, hpre⟩ := h
  exact ⟨pre ++ u, by rwa [List.append_assoc], Place.after_trans hpre hu⟩

theorem next (h : s.ReadTo p (t :: rest)) (ht : p.next t = some q) : s.ReadTo q rest := by
  have hone : p.after [t] = some q := by
    rw [Place.after_cons, ht]
    rfl
  exact h.after (u := [t]) hone

theorem consumed_append (u rest : Statement) :
    Expr.consumed (u ++ rest).length rest = u.length := by
  rw [Expr.consumed, List.length_append, Nat.add_sub_cancel]

theorem consumed_append_cons (u : Statement) (t : Token) (rest : Statement) :
    Expr.consumed (u ++ t :: rest).length rest = u.length + 1 := by
  rw [Expr.consumed, List.length_append, List.length_cons]
  omega

theorem missingOperand (h : s.ReadTo (.before n) []) : s.Pinpoints .missingOperand := by
  obtain ⟨pre, rfl, hpre⟩ := h
  rw [List.append_nil]
  refine ⟨viable_of_after hpre, ?_⟩
  rw [isSentence_iff, hpre]
  simp

theorem noOperand (h : s.ReadTo p (t :: rest)) (ht : p.next t = none) :
    s.Pinpoints (.noOperand t (Expr.consumed s.length rest)) := by
  obtain ⟨pre, rfl, hpre⟩ := h
  rw [consumed_append_cons]
  exact ⟨pre, rest, rfl, rfl, viable_of_after hpre, not_viable_of_next hpre ht⟩

theorem unresolved {f : Letter} (h : s.ReadTo p (.ref f :: rest)) :
    s.Pinpoints (.unresolved f) := by
  obtain ⟨pre, rfl, hpre⟩ := h
  have href : p.next (.ref f) = none := by cases p <;> rfl
  exact ⟨pre, rest, rfl, viable_of_after hpre, not_viable_of_next hpre href⟩

theorem tooNested (h : s.ReadTo p rest) :
    s.Pinpoints (.tooNested (Expr.consumed s.length rest)) := by
  obtain ⟨pre, rfl, hpre⟩ := h
  rw [consumed_append]
  exact ⟨pre, rest, rfl, rfl, viable_of_after hpre⟩

theorem tooDeep (h : s.ReadTo p rest) :
    s.Pinpoints (.tooDeep (Expr.consumed s.length rest)) := by
  obtain ⟨pre, rfl, hpre⟩ := h
  rw [consumed_append]
  exact ⟨pre, rest, rfl, rfl, viable_of_after hpre⟩

/-- Behind a chain that stops, only a parenthesis that closes could be allowed. -/
theorem next_behind (hstop : Expr.Stops (some .or) (t :: rest)) (ht : t = .rparen → n = 0) :
    (Place.behind n).next t = none := by
  cases t with
  | op c =>
      have hle : Expr.levelRank (some .or) ≤ c.rank := hstop c rest rfl
      cases c <;> simp [Expr.levelRank, Connective.rank] at hle
  | rparen =>
      rw [ht rfl]
      rfl
  | var | ref | not | lparen => cases n <;> rfl

theorem unclosed (h : s.ReadTo (.behind (n + 1)) rest) (hstop : Expr.Stops (some .or) rest)
    (hopen : ∀ after, rest ≠ .rparen :: after) :
    s.Pinpoints (.unclosed (Expr.consumed s.length rest + 1)) := by
  obtain ⟨pre, rfl, hpre⟩ := h
  rw [consumed_append]
  refine ⟨pre, rest, rfl, rfl, viable_of_after hpre, ⟨n, Place.openAfter_of_after hpre⟩, ?_⟩
  rintro t after rfl
  refine not_viable_of_next hpre (next_behind hstop ?_)
  rintro rfl
  exact absurd rfl (hopen after)

theorem leftover (h : s.ReadTo (.behind 0) (t :: rest))
    (hstop : Expr.Stops (some .or) (t :: rest)) :
    s.Pinpoints (.leftover t (Expr.consumed s.length (t :: rest) + 1)) := by
  obtain ⟨pre, rfl, hpre⟩ := h
  rw [consumed_append]
  exact ⟨pre, rest, rfl, rfl, isSentence_iff.mpr hpre,
    not_viable_of_next hpre (next_behind hstop fun _ => rfl)⟩

end ReadTo

/-- The only fault in a sentence is that it exceeds a limit. -/
theorem Pinpoints.of_isSentence {e : ParseError} (h : s.Pinpoints e) (hs : s.IsSentence) :
    ∃ k, e = .tooNested k ∨ e = .tooDeep k := by
  -- every token of a sentence leaves what can be prolonged
  have hviable : ∀ {pre t post}, s = pre ++ t :: post → Viable (pre ++ [t]) := by
    rintro pre t post rfl
    refine Viable.of_append (t := post) ?_
    rw [List.append_assoc]
    exact hs.viable
  cases e with
  | empty =>
      obtain ⟨e, n, hd⟩ := hs
      exact absurd h hd.ne_nil
  | missingOperand => exact absurd hs h.2
  | noOperand t k =>
      obtain ⟨pre, post, hsplit, -, -, hnot⟩ := h
      exact absurd (hviable hsplit) hnot
  | leftover t k =>
      obtain ⟨pre, post, hsplit, -, -, hnot⟩ := h
      exact absurd (hviable hsplit) hnot
  | unresolved f =>
      obtain ⟨pre, post, hsplit, -, hnot⟩ := h
      exact absurd (hviable hsplit) hnot
  | unclosed k =>
      obtain ⟨pre, post, rfl, -, -, ⟨n, hopen⟩, hpost⟩ := h
      cases post with
      | nil =>
          obtain ⟨e, m, hd⟩ := hs
          have hmatched := hd.matched
          rw [List.append_nil, Matched, hopen] at hmatched
          cases hmatched
      | cons t rest => exact absurd (hviable rfl) (hpost t rest rfl)
  | tooNested k => exact ⟨k, .inl rfl⟩
  | tooDeep k => exact ⟨k, .inr rfl⟩

end Statement

namespace Expr

namespace Measured

variable {m l r : Measured} {total : Nat} {rest : Statement} {fault : ParseError}

theorem negated_eq_error (h : m.negated total rest = .error fault) :
    fault = .tooDeep (consumed total rest) := by
  unfold negated at h
  split at h
  · cases h
  · exact (Except.error.inj h).symm

theorem joined_eq_error {op : Connective} (h : joined op l r total rest = .error fault) :
    fault = .tooDeep (consumed total rest) := by
  unfold joined at h
  split at h
  · cases h
  · exact (Except.error.inj h).symm

end Measured

theorem Parsed.closed_eq_error {bound total : Nat} {inner : Parsed bound} {fault : ParseError}
    (h : inner.closed total = .error fault) :
    fault = .unclosed (consumed total inner.rest + 1) ∧ ∀ after, inner.rest ≠ .rparen :: after := by
  obtain ⟨tree, rest, hlt⟩ := inner
  unfold closed at h
  split at h
  · cases h
  · rename_i hother
    refine ⟨(Except.error.inj h).symm, ?_⟩
    rintro after rfl
    exact hother after hlt rfl HEq.rfl

/-- What the reader leaves over does not go on with the chain that it read. -/
theorem read_stops (total : Nat) :
    (∀ (level : Option Connective) (nesting : Nat) (s : Statement),
      ∀ p, operand total level nesting s = .ok p → Stops level p.rest) ∧
    (∀ (op : Connective) (nesting : Nat) (left : Measured) (s : Statement) (bound : Nat)
      (h : s.length < bound), Stops op.tighter s →
        ∀ p, chain total op nesting left s bound h = .ok p → Stops (some op) p.rest) := by
  have htightest : ∀ rest, Stops none rest := fun _ _ _ _ => Nat.zero_le _
  apply operand.mutual_induct total
  case case2 =>
    intro nesting s op first hfirst ihfirst ihchain p hp
    rw [operand, hfirst] at hp
    exact ihchain (ihfirst first hfirst) p hp
  case case16 =>
    intro nesting left bound op rest h right tree hright hjoin _ ihright ihchain _ p hp
    rw [chain, if_pos rfl, hright] at hp
    simp only [hjoin] at hp
    exact ihchain (ihright right hright) p hp
  case case17 =>
    intro op nesting left bound c rest h hne _ hstop p hp
    rw [chain, if_neg hne, Except.ok.injEq] at hp
    rw [← hp]
    rintro c' after hc
    cases hc
    have hle := hstop c rest rfl
    revert hle
    cases op <;> cases c <;> simp [levelRank, Connective.rank, Connective.tighter] at hne ⊢
  case case18 =>
    intro op nesting left bound rest h hother _ _ p hp
    rw [chain, Except.ok.injEq] at hp
    · rw [← hp]
      rintro c after rfl
      exact absurd HEq.rfl (hother c after h rfl)
    all_goals assumption
  -- In what is left the operand is of the tightest level, or a part is refused.
  all_goals
    intros
    first
      | exact htightest _
      | simp_all [operand, chain]

/-- **Whatever the reader refuses, it says where the tokens go wrong.** -/
theorem read_pinpoints (whole : Statement) :
    (∀ (level : Option Connective) (nesting : Nat) (s : Statement),
      nesting ≤ maxNesting → ∀ n, whole.ReadTo (.before n) s →
        ∀ e, operand whole.length level nesting s = .error e → whole.Pinpoints e) ∧
    (∀ (op : Connective) (nesting : Nat) (left : Measured) (s : Statement) (bound : Nat)
      (h : s.length < bound), nesting ≤ maxNesting → ∀ n, whole.ReadTo (.behind n) s →
        ∀ e, chain whole.length op nesting left s bound h = .error e → whole.Pinpoints e) := by
  -- reading an operand leads from before it to behind it
  have hread : ∀ {level : Option Connective} {nesting n : Nat} {s : Statement}
      {p : Parsed s.length}, nesting ≤ maxNesting → whole.ReadTo (.before n) s →
      operand whole.length level nesting s = .ok p → whole.ReadTo (.behind n) p.rest := by
    intro level nesting n s p hn hs hp
    obtain ⟨used, hused, _, hd, -, -⟩ := (read_sound whole.length).1 level nesting s hn p hp
    rw [hused] at hs
    exact hs.after (hd.after n)
  apply operand.mutual_induct whole.length
  case case1 =>
    intro nesting s op e hfirst ih hn n hs e' he
    rw [operand, hfirst] at he
    cases he
    exact ih hn n hs e hfirst
  case case2 =>
    intro nesting s op first hfirst _ ihchain hn n hs e he
    rw [operand, hfirst] at he
    exact ihchain hn n (hread hn hs hfirst) e he
  case case3 =>
    intro nesting hn n hs e he
    rw [operand, Except.error.injEq] at he
    rw [← he]
    exact hs.missingOperand
  case case4 =>
    intro nesting v rest hn n hs e he
    rw [operand] at he
    cases he
  case case5 =>
    intro nesting rest hlt e hinner ih hn n hs e' he
    rw [operand, if_pos hlt, hinner] at he
    cases he
    exact ih hlt n (hs.next rfl) e hinner
  case case6 =>
    intro nesting rest hlt inner hinner e hneg ih hn n hs e' he
    rw [operand, if_pos hlt, hinner] at he
    simp only [hneg, Except.error.injEq] at he
    rw [← he, Measured.negated_eq_error hneg]
    exact (hread hlt (hs.next rfl) hinner).tooDeep
  case case7 =>
    intro nesting rest hlt inner hinner tree hneg ih hn n hs e he
    rw [operand, if_pos hlt, hinner] at he
    simp only [hneg] at he
    cases he
  case case8 =>
    intro nesting rest hge hn n hs e he
    rw [operand, if_neg hge, Except.error.injEq] at he
    rw [← he]
    exact (hs.next rfl).tooNested
  case case9 =>
    intro nesting rest hlt e hinner ih hn n hs e' he
    rw [operand, if_pos hlt, hinner] at he
    cases he
    exact ih hlt (n + 1) (hs.next rfl) e hinner
  case case10 =>
    intro nesting rest hlt inner hinner ih hn n hs e he
    rw [operand, if_pos hlt, hinner] at he
    obtain ⟨rfl, hopen⟩ := Parsed.closed_eq_error he
    exact (hread hlt (hs.next rfl) hinner).unclosed
      ((read_stops whole.length).1 _ _ _ inner hinner) hopen
  case case11 =>
    intro nesting rest hge hn n hs e he
    rw [operand, if_neg hge, Except.error.injEq] at he
    rw [← he]
    exact (hs.next (q := .before (n + 1)) rfl).tooNested
  case case12 =>
    intro nesting f tail hn n hs e he
    rw [operand, Except.error.injEq] at he
    rw [← he]
    exact hs.unresolved
  case case13 =>
    intro nesting t rest hvar hnot hlparen href hn n hs e he
    rw [operand, Except.error.injEq] at he
    · rw [← he]
      refine hs.noOperand ?_
      cases t with
      | op | rparen => rfl
      | var v => exact absurd rfl (hvar v)
      | ref f => exact absurd rfl (href f)
      | not => exact absurd rfl hnot
      | lparen => exact absurd rfl hlparen
    all_goals assumption
  case case14 =>
    intro nesting left bound op rest h e hright _ ih hn n hs e' he
    rw [chain, if_pos rfl, hright] at he
    cases he
    exact ih hn n (hs.next rfl) e hright
  case case15 =>
    intro nesting left bound op rest h right e hright hjoin _ _ hn n hs e' he
    rw [chain, if_pos rfl, hright] at he
    simp only [hjoin, Except.error.injEq] at he
    rw [← he, Measured.joined_eq_error hjoin]
    exact (hread hn (hs.next rfl) hright).tooDeep
  case case16 =>
    intro nesting left bound op rest h right tree hright hjoin _ _ ihchain hn n hs e he
    rw [chain, if_pos rfl, hright] at he
    simp only [hjoin] at he
    exact ihchain hn n (hread hn (hs.next rfl) hright) e he
  case case17 =>
    intro op nesting left bound c rest h hne _ hn n hs e he
    rw [chain, if_neg hne] at he
    cases he
  case case18 =>
    intro op nesting left bound rest h hother _ hn n hs e he
    rw [chain] at he
    · cases he
    all_goals assumption

/-- A fault found in a whole statement says where its tokens go wrong. -/
theorem pinpoints_of_parse {s : Statement} {e : ParseError} (h : parse s = .error e) :
    s.Pinpoints e := by
  unfold parse at h
  split at h
  · rw [Except.error.injEq] at h
    rw [← h]
    rfl
  · split at h
    · rename_i e' hread
      rw [Except.error.injEq] at h
      rw [← h]
      exact (read_pinpoints s).1 _ _ _ (Nat.zero_le _) 0 (.front s) e' hread
    · cases h
    · rename_i tree t rest hlt hread
      rw [Except.error.injEq] at h
      obtain ⟨used, hs, _, hd, -, -⟩ :=
        (read_sound s.length).1 _ _ _ (Nat.zero_le _) _ hread
      have hplace : s.ReadTo (.behind 0) (t :: rest) := ⟨used, hs, hd.after 0⟩
      rw [← h]
      exact hplace.leftover ((read_stops s.length).1 _ _ _ _ hread)

/-- Only the limits stand between a sentence and its tree. -/
theorem parse_of_derives {s : Statement} {e : Expr} {n : Nat} (h : Derives (some .or) s e n) :
    parse s = .ok e ∨ ∃ k, parse s = .error (.tooNested k) ∨ parse s = .error (.tooDeep k) := by
  cases hparse : parse s with
  | ok e' =>
      obtain ⟨n', h', -, -⟩ := parse_sound hparse
      rw [(h.unique h').1]
      exact .inl rfl
  | error fault =>
      have hfault := (pinpoints_of_parse hparse).of_isSentence ⟨e, n, h⟩
      rcases hfault with ⟨k, rfl | rfl⟩
      · exact .inr ⟨k, .inl rfl⟩
      · exact .inr ⟨k, .inr rfl⟩

/-- **A fault points at the first token that cannot go on.**  What stands before the token can
be prolonged to a sentence, and with the token it cannot.  Where a limit is exceeded, or the
end is unexpected, what has been read can be prolonged. -/
theorem parse_error_pinpoints {s : Statement} {e : ParseError} (hs : s ≠ [])
    (h : parse s = .error e) : e ≠ .empty ∧ s.Pinpoints e := by
  refine ⟨?_, pinpoints_of_parse h⟩
  rintro rfl
  exact hs (pinpoints_of_parse h)

/-- In `(a))` the fourth token is the first that cannot go on: before it stands a sentence. -/
theorem parse_error_pinpoints_stray :
    [Token.lparen, .var .a, .rparen, .rparen] ≠ [] ∧
    parse [.lparen, .var .a, .rparen, .rparen] = .error (.leftover .rparen 4) ∧
    ParseError.leftover .rparen 4 ≠ .empty ∧
    Statement.Pinpoints [.lparen, .var .a, .rparen, .rparen] (.leftover .rparen 4) := by
  have hany : ∀ a : Letter, parse [.lparen, .var a, .rparen, .rparen] =
      .error (.leftover .rparen 4) := by
    intro a
    cbv
  have hne : [Token.lparen, .var .a, .rparen, .rparen] ≠ [] := by simp
  exact ⟨hne, hany _, parse_error_pinpoints hne (hany _)⟩

end Expr

end Switching
