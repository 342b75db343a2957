/-
Scanning is one definition on every text.

What a text may hold is said without any scanning going on.  Its characters are those that
are typed for some tokens, its lexemes, one after another; a conjunction is put in between
each two of them where the first can end an operand and the second can begin one.  If there
are no such tokens then some character is illegal: one of no token, or a `$` that no letter
follows.  Both are seen from a character and what stands behind it, so there is a leftmost
one, and it is the one reported.

The argument is one decomposition.  A text is typed for some tokens, or it is so up to an
illegal character, and nothing that is typed for a token is illegal, whatever follows.  Nor
is it typed for any other tokens, since each is known from what it begins with.
-/
import Switching.Proofs.Printing

namespace Switching.Statement

/-! ### The reference -/

/-- The lexemes with a conjunction between each two where an operand begins behind the end of
another. -/
def conjoin : List Token → Statement
  | [] => []
  | [t] => [t]
  | t :: u :: rest =>
    if juxtaposed t u then t :: .op .and :: conjoin (u :: rest) else t :: conjoin (u :: rest)

/-- The characters of expressions beside the letters. -/
def signs : List Char :=
  ['$', '!', '*', '^', '+', '(', ')']

/-- `Illegal c rest`: the character `c` is illegal where `rest` stands behind it. -/
inductive Illegal : Char → List Char → Prop
  /-- A `$` that no letter follows is no reference. -/
  | marker {rest : List Char} (h : ∀ c ∈ rest.head?, c.isAlpha = false) : Illegal '$' rest
  /-- Any other character has to be in the alphabet. -/
  | stranger {c : Char} {rest : List Char} (hletter : c.isAlpha = false) (hsign : c ∉ signs) :
      Illegal c rest

/-- No character is illegal where it stands. -/
def AllLegal (cs : List Char) : Prop :=
  ∀ pre c rest, cs = pre ++ c :: rest → ¬ Illegal c rest

variable {t u : Token} {c : Char} {cs rest : List Char} {read lexemes : List Token}
  {s : Statement}

/-- Where a conjunction is put in. -/
theorem juxtaposed_iff : juxtaposed t u = true ↔
    ((∃ v, t = .var v) ∨ (∃ f, t = .ref f) ∨ t = .rparen) ∧
      ((∃ v, u = .var v) ∨ (∃ f, u = .ref f) ∨ u = .lparen ∨ u = .not) := by
  rw [juxtaposed, Bool.and_eq_true]
  cases t <;> cases u <;> simp [Token.endsOperand, Token.startsOperand]

/-! ### Illegal characters -/

theorem allLegal_iff : AllLegal cs ↔
    (∀ c ∈ cs, c.isAlpha = true ∨ c ∈ signs) ∧
      ∀ pre rest, cs = pre ++ '$' :: rest → ∃ c rest', rest = c :: rest' ∧ c.isAlpha = true := by
  constructor
  · intro h
    constructor
    · intro c hc
      obtain ⟨pre, rest, hcs⟩ := List.append_of_mem hc
      by_contra hnot
      rw [not_or, Bool.not_eq_true] at hnot
      exact h pre c rest hcs (.stranger hnot.1 hnot.2)
    · intro pre rest hcs
      cases rest with
      | nil =>
          refine absurd (Illegal.marker ?_) (h pre '$' [] hcs)
          intro c hc
          cases hc
      | cons c rest =>
          refine ⟨c, rest, rfl, ?_⟩
          by_contra hnot
          rw [Bool.not_eq_true] at hnot
          refine h pre '$' (c :: rest) hcs (.marker ?_)
          intro d hd
          cases hd
          exact hnot
  · rintro ⟨halphabet, hmarkers⟩ pre c rest hcs hillegal
    cases hillegal with
    | marker hbehind =>
        obtain ⟨c, rest', rfl, hc⟩ := hmarkers pre rest hcs
        rw [hbehind c rfl] at hc
        cases hc
    | stranger hletter hsign =>
        rcases halphabet c (by simp [hcs]) with hc | hc
        · rw [hletter] at hc
          cases hc
        · exact hsign hc

/-- A character other than `$` is illegal if it is no token, whatever follows. -/
theorem illegal_iff_of_ne (hc : c ≠ '$') : Illegal c rest ↔ tokenOf? c = none := by
  constructor
  · intro hillegal
    cases hillegal with
    | marker => exact absurd rfl hc
    | stranger hletter hsign =>
        unfold tokenOf?
        split
        case h_7 => rw [Letter.ofChar?_eq_none_iff.mpr hletter, Option.map_none]
        all_goals exact absurd (by decide) hsign
  · intro h
    unfold tokenOf? at h
    split at h
    case h_7 =>
      rw [Option.map_eq_none_iff, Letter.ofChar?_eq_none_iff] at h
      refine .stranger h ?_
      simp only [signs, List.mem_cons, List.not_mem_nil]
      tauto
    all_goals cases h

theorem not_illegal_of_tokenOf? (hc : c ≠ '$') (h : tokenOf? c = some t) : ¬ Illegal c rest := by
  rw [illegal_iff_of_ne hc, h]
  simp

/-- A `$` with a letter behind it is legal. -/
theorem not_illegal_marker (f : Letter) : ¬ Illegal '$' (f.char :: rest) := by
  intro hillegal
  cases hillegal with
  | marker hbehind =>
      have hf := hbehind f.char rfl
      rw [f.isAlpha] at hf
      cases hf
  | stranger _ hsign => exact hsign (by decide)

/-- What is typed for a token is legal, whatever follows. -/
theorem not_illegal_of_keys {p q : List Char} (h : t.keys = p ++ c :: q) :
    ¬ Illegal c (q ++ rest) := by
  rcases t.keys_cases with ⟨f, rfl⟩ | ⟨d, hkeys, hd, ht⟩
  · match p, h with
    | [], h =>
        cases h
        exact not_illegal_marker f
    | [_], h =>
        cases h
        exact not_illegal_of_tokenOf? (f.char_ne (by decide)) f.tokenOf?_char
    | _ :: _ :: p, h => cases p <;> cases h
  · rw [hkeys] at h
    cases p with
    | nil =>
        cases h
        exact not_illegal_of_tokenOf? hd ht
    | cons x p => cases p <;> cases h

/-- So is what is typed for some tokens. -/
theorem not_illegal_of_flatMap_keys {p q : List Char}
    (h : lexemes.flatMap Token.keys = p ++ c :: q) : ¬ Illegal c (q ++ rest) := by
  induction lexemes generalizing p with
  | nil => cases p <;> cases h
  | cons t lexemes ih =>
      rw [List.flatMap_cons] at h
      rcases List.append_eq_append_iff.mp h with ⟨d, -, hd⟩ | ⟨d, hp, hd⟩
      · exact ih hd
      · cases d with
        | nil => exact ih (p := []) hd.symm
        | cons x d =>
            rw [List.cons_append, List.cons.injEq] at hd
            obtain ⟨rfl, rfl⟩ := hd
            rw [List.append_assoc]
            exact not_illegal_of_keys hp

/-! ### The decomposition -/

/-- A character that is read as a token by itself is what is typed for the token. -/
theorem keys_of_tokenOf? (h : tokenOf? c = some t) : t.keys = [c] := by
  unfold tokenOf? at h
  split at h
  case h_7 =>
    obtain ⟨v, hv, rfl⟩ := Option.map_eq_some_iff.mp h
    rw [Token.keys, Letter.ofChar?_eq_some_iff.mp hv]
  all_goals
    cases h
    rfl

/-- `Scans read cs outcome`: with `read` behind it, last token first, the text is typed for some
tokens and the outcome has them added, or it is so up to an illegal character and the outcome
reports that. -/
inductive Scans (read : List Token) : List Char → Except Error Statement → Prop
  /-- Every character belongs to a lexeme. -/
  | typed (lexemes : List Token) :
      Scans read (lexemes.flatMap Token.keys) (.ok (lexemes.foldl push read).reverse)
  /-- Behind some lexemes a character is illegal. -/
  | broken (lexemes : List Token) {c : Char} {rest : List Char} (h : Illegal c rest) :
      Scans read (lexemes.flatMap Token.keys ++ c :: rest) (.error (.illegalCharacter c))

/-- What is typed for a token is one lexeme more. -/
theorem Scans.cons {outcome : Except Error Statement} (h : Scans (push read t) cs outcome) :
    Scans read (t.keys ++ cs) outcome := by
  cases h with
  | typed lexemes => exact .typed (t :: lexemes)
  | broken lexemes hillegal =>
      rw [← List.append_assoc, ← List.flatMap_cons]
      exact .broken (t :: lexemes) hillegal

/-- **Scanning takes lexemes as long as there are some.** -/
theorem scanFrom_scans (read : List Token) (cs : List Char) :
    Scans read cs (scanFrom read cs) := by
  fun_induction scanFrom read cs with
  | case1 read => exact .typed []
  | case2 read =>
      refine .broken [] (.marker ?_)
      intro c hc
      cases hc
  | case3 read c rest f hf ih =>
      rw [← Letter.ofChar?_eq_some_iff.mp hf]
      exact ih.cons
  | case4 read c rest hf =>
      refine .broken [] (.marker ?_)
      intro d hd
      cases hd
      exact Letter.ofChar?_eq_none_iff.mp hf
  | case5 read c rest hc t ht ih =>
      have hcons := ih.cons
      rwa [keys_of_tokenOf? ht] at hcons
  | case6 read c rest hc ht => exact .broken [] ((illegal_iff_of_ne hc).mpr ht)

/-! ### One list of lexemes -/

/-- A token is known from what is typed for it, whatever follows. -/
theorem keys_append_inj {cs' : List Char} (h : t.keys ++ cs = u.keys ++ cs') :
    t = u ∧ cs = cs' := by
  rcases t.keys_cases with ⟨f, rfl⟩ | ⟨c, hkeys, hc, ht⟩
  · rcases u.keys_cases with ⟨g, rfl⟩ | ⟨d, hkeys, hd, -⟩
    · simp only [Token.keys, List.cons_append, List.nil_append, List.cons.injEq, true_and] at h
      exact ⟨congrArg Token.ref (Letter.char_inj h.1), h.2⟩
    · rw [hkeys] at h
      exact absurd (List.cons.inj h).1.symm hd
  · rcases u.keys_cases with ⟨g, rfl⟩ | ⟨d, hkeys', -, hu⟩
    · rw [hkeys] at h
      exact absurd (List.cons.inj h).1 hc
    · rw [hkeys, hkeys', List.singleton_append, List.singleton_append, List.cons.injEq] at h
      rw [h.1, hu, Option.some.injEq] at ht
      exact ⟨ht.symm, h.2⟩

theorem keys_ne_nil (t : Token) : t.keys ≠ [] := by
  cases t <;> simp [Token.keys]

/-- **A text is typed for one list of tokens at most.** -/
theorem flatMap_keys_inj {lexemes lexemes' : List Token}
    (h : lexemes.flatMap Token.keys = lexemes'.flatMap Token.keys) : lexemes = lexemes' := by
  induction lexemes generalizing lexemes' with
  | nil =>
      cases lexemes' with
      | nil => rfl
      | cons u lexemes' => exact absurd (List.append_eq_nil_iff.mp h.symm).1 (keys_ne_nil u)
  | cons t lexemes ih =>
      cases lexemes' with
      | nil => exact absurd (List.append_eq_nil_iff.mp h).1 (keys_ne_nil t)
      | cons u lexemes' =>
          rw [List.flatMap_cons, List.flatMap_cons] at h
          obtain ⟨rfl, hrest⟩ := keys_append_inj h
          rw [ih hrest]

/-! ### Putting conjunctions in -/

/-- Adding tokens one after another puts the conjunctions between them. -/
theorem reverse_foldl_push (lexemes read : List Token) (t : Token) :
    (lexemes.foldl push (t :: read)).reverse = read.reverse ++ conjoin (t :: lexemes) := by
  induction lexemes generalizing t read with
  | nil => simp [conjoin]
  | cons u lexemes ih =>
      rw [List.foldl_cons, push, conjoin]
      split
      · rw [ih]
        simp
      · rw [ih]
        simp

theorem conjoin_eq (lexemes : List Token) : (lexemes.foldl push []).reverse = conjoin lexemes := by
  cases lexemes with
  | nil => rfl
  | cons t lexemes => exact reverse_foldl_push lexemes [] t

/-! ### The outcome -/

/-- Nothing is illegal in what is typed for some tokens. -/
theorem allLegal_flatMap_keys (lexemes : List Token) :
    AllLegal (lexemes.flatMap Token.keys) := by
  intro pre c rest h
  have hnot : ¬ Illegal c (rest ++ []) := not_illegal_of_flatMap_keys h
  rwa [List.append_nil] at hnot

/-- Tokens that are typed are added one after another. -/
theorem scanFrom_lexemes (lexemes : List Token) :
    scanFrom read (lexemes.flatMap Token.keys) = .ok (lexemes.foldl push read).reverse := by
  induction lexemes generalizing read with
  | nil => rw [List.flatMap_nil, List.foldl_nil, scanFrom]
  | cons t lexemes ih => rw [List.flatMap_cons, scanFrom_keys_append, ih, List.foldl_cons]

theorem scanFrom_nil_eq_ok_iff :
    scanFrom [] cs = .ok s ↔
      ∃ lexemes : List Token, cs = lexemes.flatMap Token.keys ∧ s = conjoin lexemes := by
  constructor
  · intro h
    have hscan := scanFrom_scans [] cs
    rw [h] at hscan
    cases hscan with
    | typed lexemes => exact ⟨lexemes, rfl, conjoin_eq lexemes⟩
  · rintro ⟨lexemes, rfl, rfl⟩
    rw [scanFrom_lexemes, conjoin_eq]

theorem scanFrom_isOk_iff : (∃ s, scanFrom read cs = .ok s) ↔ AllLegal cs := by
  have hscan := scanFrom_scans read cs
  constructor
  · rintro ⟨s, h⟩
    rw [h] at hscan
    cases hscan with
    | typed lexemes => exact allLegal_flatMap_keys lexemes
  · intro h
    generalize scanFrom read cs = outcome at hscan
    cases hscan with
    | typed lexemes => exact ⟨_, rfl⟩
    | broken lexemes hillegal => exact absurd hillegal (h _ _ _ rfl)

/-- The character reported is the leftmost illegal one. -/
theorem scanFrom_eq_error_iff {e : Error} :
    scanFrom read cs = .error e ↔
      ∃ pre c rest, cs = pre ++ c :: rest ∧ Illegal c rest ∧
        (∀ p d q, pre = p ++ d :: q → ¬ Illegal d (q ++ c :: rest)) ∧ e = .illegalCharacter c := by
  have hscan := scanFrom_scans read cs
  constructor
  · intro h
    rw [h] at hscan
    cases hscan with
    | @broken lexemes c rest hillegal =>
        refine ⟨lexemes.flatMap Token.keys, c, rest, rfl, hillegal, ?_, rfl⟩
        intro p d q hsplit
        exact not_illegal_of_flatMap_keys hsplit
  · rintro ⟨pre, c, rest, hcs, hillegal, hfirst, rfl⟩
    generalize scanFrom read cs = outcome at hscan ⊢
    cases hscan with
    | typed lexemes => exact absurd hillegal (allLegal_flatMap_keys lexemes pre c rest hcs)
    | @broken lexemes d rest' hillegal' =>
        -- of two illegal characters with none before them neither is before the other
        rcases List.append_eq_append_iff.mp hcs with ⟨x, hx, hrest⟩ | ⟨x, hx, hrest⟩
        · cases x with
          | nil =>
              rw [List.nil_append, List.cons.injEq] at hrest
              rw [hrest.1]
          | cons y x =>
              rw [List.cons_append, List.cons.injEq] at hrest
              obtain ⟨rfl, rfl⟩ := hrest
              exact absurd hillegal' (hfirst _ _ _ hx)
        · cases x with
          | nil =>
              rw [List.nil_append, List.cons.injEq] at hrest
              rw [hrest.1]
          | cons y x =>
              rw [List.cons_append, List.cons.injEq] at hrest
              obtain ⟨rfl, rfl⟩ := hrest
              exact absurd hillegal (not_illegal_of_flatMap_keys hx)

/-- **Scanning is its reference.**  The blanks of a text left out, it is scanned exactly if its
characters are letters and signs and a letter follows each `$`.  Then it is typed for some
lexemes and no others, and these are the statement, with a conjunction between two of them
where the first is a variable, a reference or a closing parenthesis and the second a variable,
a reference, an opening parenthesis or a negation.  Otherwise the leftmost illegal character is
reported. -/
theorem scan_outcome (text : String) :
    ((∃ s, scan text = .ok s) ↔
      (∀ c ∈ Text.strip text.toList, c.isAlpha = true ∨ c ∈ signs) ∧
        ∀ pre rest, Text.strip text.toList = pre ++ '$' :: rest →
          ∃ c rest', rest = c :: rest' ∧ c.isAlpha = true) ∧
    (∀ s, scan text = .ok s ↔
      ∃ lexemes : List Token, Text.strip text.toList = lexemes.flatMap Token.keys ∧
        s = conjoin lexemes) ∧
    (∀ lexemes lexemes' : List Token,
      lexemes.flatMap Token.keys = lexemes'.flatMap Token.keys → lexemes = lexemes') ∧
    (∀ t u, juxtaposed t u = true ↔
      ((∃ v, t = .var v) ∨ (∃ f, t = .ref f) ∨ t = .rparen) ∧
        ((∃ v, u = .var v) ∨ (∃ f, u = .ref f) ∨ u = .lparen ∨ u = .not)) ∧
    ∀ e, scan text = .error e ↔
      ∃ pre c rest, Text.strip text.toList = pre ++ c :: rest ∧ Illegal c rest ∧
        (∀ p d q, pre = p ++ d :: q → ¬ Illegal d (q ++ c :: rest)) ∧ e = .illegalCharacter c := by
  refine ⟨?_, fun _ => scanFrom_nil_eq_ok_iff, fun _ _ => flatMap_keys_inj,
    fun _ _ => juxtaposed_iff, fun _ => scanFrom_eq_error_iff⟩
  rw [← allLegal_iff]
  exact scanFrom_isOk_iff

end Switching.Statement
