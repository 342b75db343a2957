/-
Conversations, line by line.

What is shown of a conversation is a prompt, and then for every line its answer and another
prompt, until a line ends the conversation.  An answer depends on the line and on the session
that the lines before it have left, and on nothing else.  So a conversation is taken apart at
any line: what was shown before stays, and what is shown from there on depends on the session
alone.  Lines behind the end are never read, more lines only add to what is shown, and a line
that leaves the session as it is may be put in anywhere without any other answer changing.

The program waits for every line and shows its answer at once.  The loop that it runs is
`converse`, and where all lines are given and what is shown is collected, that loop gives the
transcript and nothing else; so what is proved of transcripts is proved of the program.

Which lines leave the session as it is can be seen from the answers, since only a command that
stores or removes something has nothing to say when it succeeds.  Every text that is shown has a
page, and no reason for refusing a line reads `ok`.
-/
import Switching.Proofs.Blanks
import Switching.Proofs.Paging

namespace Switching

/-! ### Lines as they are typed -/

/-- No reason for refusing a request is as short as `ok`. -/
theorem Error.two_lt_length_message (e : Error) : 2 < e.message.length := by
  have hlonger {text : String} (h : 2 < text.length) (rest : String) :
      2 < (text ++ rest).length := by
    rw [String.length_append]
    omega
  cases e with
  | illegalCharacter | invalidName | notFound => exact hlonger (hlonger (by decide) _) _
  | missingNestedFunction | variableMismatch | tableTooLarge =>
      exact hlonger (hlonger (hlonger (hlonger (by decide) _) _) _) _
  | cyclicReference | invalidCommand => exact hlonger (by decide) _
  | statementTooLarge =>
      exact hlonger (hlonger (hlonger (hlonger (hlonger (hlonger (by decide) _) _) _) _) _) _
  | malformed => exact hlonger (hlonger (hlonger (by decide) _) _) _

namespace Console

/-- What the user types before a line feed. -/
structure Line where
  /-- The characters of the line. -/
  chars : List Char
  /-- None of them ends it. -/
  no_feed : '\n' ∉ chars

namespace Line

/-- The line as text. -/
def text (l : Line) : String :=
  String.ofList l.chars

/-- The line as it is read: less a carriage return before the line feed. -/
def read (l : Line) : List Char :=
  Text.closeLine l.chars.reverse

/-- The line ends the conversation. -/
def Quits (l : Line) : Prop :=
  isQuit l.chars = true

/-- A carriage return is a blank, so it makes no difference. -/
theorem trim_read (l : Line) : Text.trim l.read = Text.trim l.chars := by
  obtain ⟨cs, -⟩ := l
  show Text.trim (Text.closeLine cs.reverse) = Text.trim cs
  unfold Text.closeLine
  split
  · rename_i rest hcs
    have hreturn : Text.Blanks ['\r'] := by
      intro c hc
      rw [List.mem_singleton.mp hc]
      decide
    have hcs : cs = rest.reverse ++ ['\r'] := by
      rw [← List.reverse_reverse cs, hcs, List.reverse_cons]
    rw [hcs, Text.trim_append_blanks _ hreturn]
  · rw [List.reverse_reverse]

end Line

/-- Lines as they are typed, each with a line feed behind it. -/
def typed (ls : List Line) : String :=
  String.ofList (ls.flatMap fun l => l.chars ++ ['\n'])

/-- **What is typed in lines is read in lines.** -/
theorem lines_typed (ls : List Line) : Text.lines (typed ls).toList = ls.map Line.read := by
  unfold typed Text.lines
  rw [String.toList_ofList]
  induction ls with
  | nil => rfl
  | cons l ls ih =>
      rw [List.flatMap_cons, List.append_assoc, Text.linesAfter_append l.no_feed,
        List.append_nil, List.singleton_append, Text.linesAfter, if_pos rfl, ih]
      rfl

/-! ### What is seen of a conversation -/

section

variable {σ : Type} {keep : List Event → σ → σ} {line : List Char}

/-- Shows a text behind what has been shown. -/
def showing (text : String) : StateM (String × σ) Unit :=
  modify fun (shown, kept) => (shown ++ text, kept)

/-- Keeps the events in whatever they are kept in. -/
def keeping (keep : List Event → σ → σ) (events : List Event) : StateM (String × σ) Unit :=
  modify fun (shown, kept) => (shown, keep events kept)

theorem run_converse_nil (s : Session) (shown : String) (kept : σ) :
    (converse showing (keeping keep) s ([] : List (List Char))).run (shown, kept) =
      ((), shown ++ prompt, kept) := by
  rfl

theorem run_converse_of_isQuit (h : isQuit line = true) (s : Session) (lines : List (List Char))
    (shown : String) (kept : σ) :
    (converse showing (keeping keep) s (line :: lines)).run (shown, kept) =
      ((), shown ++ prompt, kept) := by
  simp only [converse, List.forIn_cons, if_pos h]
  rfl

/-- A line is answered, and the conversation goes on from there. -/
theorem run_converse_cons (h : ¬ isQuit line = true) (s : Session) (lines : List (List Char))
    (shown : String) (kept : σ) :
    (converse showing (keeping keep) s (line :: lines)).run (shown, kept) =
      (converse showing (keeping keep) (answer s line).session lines).run
        (shown ++ prompt ++ (answer s line).text, keep (answer s line).events kept) := by
  simp [converse, showing, keeping, h, String.append_assoc]

theorem shown_converse (s : Session) (lines : List (List Char)) (shown : String) (kept : σ) :
    ((converse showing (keeping keep) s lines).run (shown, kept)).2.1 =
      shown ++ prompt ++ replies s lines := by
  induction lines generalizing s shown kept with
  | nil => rw [run_converse_nil, replies, String.append_empty]
  | cons line lines ih =>
      rw [replies]
      by_cases h : isQuit line = true
      · rw [run_converse_of_isQuit h, if_pos h, String.append_empty]
      · rw [run_converse_cons h, ih, if_neg h]
        simp only [String.append_assoc]

/-- **What is shown of a conversation is its transcript**, whatever becomes of the journal. -/
theorem shown_converse_eq_transcript (options : Options) (input : String) (kept : σ) :
    ((converse showing (keeping keep) (.new options.config)
      (Text.lines input.toList)).run ("", kept)).2.1 = transcript options input := by
  rw [shown_converse, String.empty_append, transcript]

end
/-! ### Answers -/

/-- What is answered to lines one after another, up to the line that ends the conversation. -/
def answers (s : Session) : List Line → List String
  | [] => []
  | l :: ls =>
    if isQuit l.chars then []
    else (answer s l.chars).text :: answers (answer s l.chars).session ls

/-- The session after lines none of which ends the conversation. -/
def sessionAfter (s : Session) (ls : List Line) : Session :=
  ls.foldl (fun s l => (answer s l.chars).session) s

section

variable {s : Session} {l : Line} {before after : List Line} {cs cs' : List Char} {line : String}

/-- An answer depends on what is left of the line when it is trimmed. -/
theorem answer_congr (s : Session) (h : Text.trim cs = Text.trim cs') :
    answer s cs = answer s cs' := by
  have hparse : Command.parse (String.ofList cs) = Command.parse (String.ofList cs') := by
    unfold Command.parse
    rw [String.toList_ofList, String.toList_ofList, h]
  unfold answer Session.executeLine
  rw [h, hparse]

/-- What is shown of a conversation is its answers, with a prompt behind each of them. -/
theorem replies_eq_answers (s : Session) (ls : List Line) :
    replies s (ls.map Line.read) = String.join ((answers s ls).map (· ++ prompt)) := by
  induction ls generalizing s with
  | nil => rfl
  | cons l ls ih =>
      have hquit : isQuit l.read = isQuit l.chars := by
        unfold isQuit
        rw [l.trim_read]
      rw [List.map_cons, replies, answers, hquit, answer_congr s l.trim_read]
      by_cases h : isQuit l.chars = true
      · rw [if_pos h, if_pos h]
        rfl
      · rw [if_neg h, if_neg h, List.map_cons, String.join_cons]
        show _ ++ replies _ _ = _
        rw [ih]

/-- **A conversation can be taken apart at any line.** -/
theorem answers_append (s : Session) (h : ∀ l ∈ before, ¬ l.Quits) :
    answers s (before ++ after) = answers s before ++ answers (sessionAfter s before) after := by
  induction before generalizing s with
  | nil => rfl
  | cons l before ih =>
      have hl : ¬ isQuit l.chars = true := h l (List.mem_cons_self ..)
      rw [List.cons_append, answers, answers, if_neg hl, if_neg hl,
        ih _ fun l' hl' => h l' (List.mem_cons_of_mem _ hl')]
      rfl

/-- Behind the line that ends the conversation nothing is read. -/
theorem answers_quit (s : Session) (before after : List Line) (h : l.Quits) :
    answers s (before ++ l :: after) = answers s before := by
  induction before generalizing s with
  | nil => exact if_pos h
  | cons l' before ih => rw [List.cons_append, answers, answers, ih]

theorem reachable_sessionAfter (hs : s.Reachable) (ls : List Line) :
    (sessionAfter s ls).Reachable := by
  induction ls generalizing s with
  | nil => exact hs
  | cons l ls ih => exact ih (hs.answer l.chars)

/-! ### What an answer tells -/

/-- The line is a command that stores or removes something, and it is carried out. -/
def Changes (s : Session) (l : Line) : Prop :=
  ∃ command ch next pages, Command.parse l.text = .ok command ∧ command.change? = some ch ∧
    (s.execute command).outcome = .ok (next, pages)

/-- A blank line is no command. -/
theorem parse_of_blank (h : Text.trim l.chars = []) :
    Command.parse l.text = .error (.invalidCommand .missingSubcommand) := by
  unfold Command.parse Line.text
  rw [String.toList_ofList, h]
  rfl

/-- **All that an answer can be**: nothing, the reason for a refusal, or a reply. -/
theorem answer_cases (s : Session) (l : Line) :
    (Text.trim l.chars = [] ∧ answer s l.chars = ⟨s, "", []⟩) ∨
    (∃ e, (s.executeLine l.text).outcome = .error e ∧ (answer s l.chars).session = s ∧
      (answer s l.chars).text = e.message ++ "\n") ∨
    ∃ command next pages, Command.parse l.text = .ok command ∧
      (s.execute command).outcome = .ok (next, pages) ∧
      (answer s l.chars).session = next ∧ (answer s l.chars).text = replyText pages := by
  by_cases hblank : (Text.trim l.chars).isEmpty = true
  · refine .inl ⟨List.isEmpty_iff.mp hblank, ?_⟩
    rw [answer, if_pos hblank]
  · simp only [answer, if_neg hblank, Line.text]
    cases hout : (s.executeLine (String.ofList l.chars)).outcome with
    | error e => exact .inr (.inl ⟨e, rfl, rfl, rfl⟩)
    | ok out =>
        obtain ⟨next, pages⟩ := out
        cases hparse : Command.parse (String.ofList l.chars) with
        | error e =>
            rw [Session.executeLine_outcome_of_error s hparse] at hout
            cases hout
        | ok command =>
            rw [Session.executeLine_outcome s hparse] at hout
            exact .inr (.inr ⟨command, next, pages, rfl, hout, rfl, rfl⟩)

/-- A reply with a page has an empty line behind it, and `ok` has none. -/
theorem replyText_ne_ok {pages : List String} (h : pages ≠ []) : replyText pages ≠ "ok\n" := by
  obtain ⟨page, pages, rfl⟩ := List.exists_cons_of_ne_nil h
  have htext : replyText (page :: pages) =
      page ++ "\n\n" ++ String.join (pages.map fun page => page ++ "\n\n") :=
    String.join_cons
  intro hok
  have hfeeds := congrArg (fun text : String => text.toList.count '\n') hok
  simp only [htext, String.toList_append, List.count_append] at hfeeds
  have htwo : "\n\n".toList.count '\n' = 2 := by decide
  have hone : "ok\n".toList.count '\n' = 1 := by decide
  omega

/-- **Exactly a change that is carried out is answered by `ok`.** -/
theorem answer_eq_ok_iff (hs : s.Reachable) :
    (answer s l.chars).text = "ok\n" ↔ Changes s l := by
  rcases answer_cases s l with ⟨hblank, hanswer⟩ | ⟨e, hout, -, htext⟩ |
    ⟨command, next, pages, hparse, hout, -, htext⟩
  · constructor
    · intro hok
      rw [hanswer] at hok
      exact absurd (show "" = "ok\n" from hok) (by decide)
    · rintro ⟨command, ch, next, pages, hparse, -, -⟩
      rw [parse_of_blank hblank] at hparse
      cases hparse
  · constructor
    · intro hok
      have hlength := congrArg String.length (htext.symm.trans hok)
      rw [String.length_append] at hlength
      have hlong := e.two_lt_length_message
      have hfeed : "\n".length = 1 := by decide
      have hshort : "ok\n".length = 3 := by decide
      omega
    · rintro ⟨command, ch, next, pages, hparse, -, hdone⟩
      rw [Session.executeLine_outcome s hparse, hdone] at hout
      cases hout
  · constructor
    · intro hok
      cases hch : command.change? with
      | some ch => exact ⟨command, ch, next, pages, hparse, hch, hout⟩
      | none =>
          -- a command that changes nothing has something to show
          obtain ⟨-, text, -, hpaged⟩ := Session.sent_of_execute hs hch hout
          exact absurd (htext.symm.trans hok) (replyText_ne_ok hpaged.ne_nil)
    · rintro ⟨command', ch, next', pages', hparse', hch, -⟩
      rw [hparse, Except.ok.injEq] at hparse'
      subst hparse'
      rw [Session.execute_of_change s hch] at hout
      obtain ⟨_, -, hnone⟩ := exists_of_map_eq_ok hout
      rw [Prod.mk.injEq] at hnone
      rw [htext, ← hnone.2]
      rfl

/-- **Any other line leaves the session as it is.** -/
theorem session_eq_of_not_changes (h : ¬ Changes s l) : (answer s l.chars).session = s := by
  rcases answer_cases s l with ⟨-, hanswer⟩ | ⟨e, -, hsession, -⟩ |
    ⟨command, next, pages, hparse, hout, hsession, -⟩
  · rw [hanswer]
  · exact hsession
  · rw [hsession]
    cases hch : command.change? with
    | some ch => exact absurd ⟨command, ch, next, pages, hparse, hch, hout⟩ h
    | none => exact Session.execute_reads hch (congrArg (Except.map Prod.fst) hout)

/-! ### Whole conversations -/

/-- What is shown of a conversation with the program. -/
theorem run_typed {args : List String} {options : Options} (h : Options.parse args = .ok options)
    (ls : List Line) : run args (typed ls) =
      ⟨prompt ++ String.join ((answers (.new options.config) ls).map (· ++ prompt)), 0⟩ := by
  rw [run, h]
  show Output.mk (transcript options (typed ls)) 0 = _
  rw [transcript, lines_typed, replies_eq_answers]

/-- More answers are shown behind those that are shown already. -/
theorem run_text_append {args : List String} {options : Options}
    (h : Options.parse args = .ok options) {ls : List Line} {others : List String}
    (hanswers : answers (.new options.config) ls = answers (.new options.config) before ++ others) :
    (run args (typed ls)).text =
      (run args (typed before)).text ++ String.join (others.map (· ++ prompt)) := by
  rw [run_typed h, run_typed h, hanswers, List.map_append, String.join_append, String.append_assoc]

/-- A line that leaves the session as it is does not count for what is answered later. -/
theorem answers_idle (hl : ¬ l.Quits) (hidle : (answer s l.chars).session = s)
    (after : List Line) : answers s (l :: after) = (answer s l.chars).text :: answers s after := by
  have hl : ¬ isQuit l.chars = true := hl
  rw [answers, if_neg hl, hidle]

/-- **Conversations compose.**  What is shown is a prompt and the answers with a prompt behind
each.  Nothing depends on what is typed behind the line that ends the conversation; and before
that line, what is typed later only adds to what is shown.  A line is answered by `ok` exactly if
it is a command that stores or removes something and is carried out; any other line leaves the
session as it is; and a line that leaves it as it is adds its own answer and a prompt where it is
put in, and leaves all other answers as they were. -/
theorem conversation_composes {args : List String} {options : Options}
    (h : Options.parse args = .ok options) :
    (∀ ls, (run args (typed ls)).text =
      prompt ++ String.join ((answers (.new options.config) ls).map (· ++ prompt))) ∧
    (∀ before l after, l.Quits →
      run args (typed (before ++ l :: after)) = run args (typed (before ++ [l]))) ∧
    ∀ before s, (∀ l ∈ before, ¬ l.Quits) → sessionAfter (.new options.config) before = s →
      (∀ after, ∃ rest,
        (run args (typed (before ++ after))).text = (run args (typed before)).text ++ rest) ∧
      ∀ l, ((answer s l.chars).text = "ok\n" ↔ Changes s l) ∧
        (¬ Changes s l → (answer s l.chars).session = s) ∧
        (¬ l.Quits → (answer s l.chars).session = s → ∀ after, ∃ others rest,
          answers (.new options.config) (before ++ after) =
            answers (.new options.config) before ++ others ∧
          answers (.new options.config) (before ++ l :: after) =
            answers (.new options.config) before ++ (answer s l.chars).text :: others ∧
          (run args (typed (before ++ after))).text = (run args (typed before)).text ++ rest ∧
          (run args (typed (before ++ l :: after))).text =
            (run args (typed before)).text ++ ((answer s l.chars).text ++ prompt) ++ rest) := by
  refine ⟨fun ls => congrArg Output.text (run_typed h ls), ?_, ?_⟩
  · intro before l after hl
    rw [run_typed h, run_typed h, answers_quit _ _ _ hl, answers_quit _ _ _ hl]
  · rintro before s hbefore rfl
    constructor
    · intro after
      exact ⟨_, run_text_append h (answers_append _ hbefore)⟩
    · intro l
      have hreach : (Session.new options.config).Reachable := ⟨_, [], rfl⟩
      refine ⟨answer_eq_ok_iff (reachable_sessionAfter hreach before), session_eq_of_not_changes,
        ?_⟩
      intro hl hidle after
      have hwithout : answers (.new options.config) (before ++ after) = _ :=
        answers_append _ hbefore
      have hwith : answers (.new options.config) (before ++ l :: after) = _ :=
        answers_append _ hbefore
      rw [answers_idle hl hidle] at hwith
      refine ⟨_, _, hwithout, hwith, run_text_append h hwithout, ?_⟩
      rw [run_text_append h hwith, List.map_cons, String.join_cons, ← String.append_assoc]

end

/-- A line that stores a function, typed by someone in no hurry. -/
def storing : Line := ⟨" set  f a ".toList, by decide⟩

/-- A line that asks for a function that nobody has stored. -/
def mistaken : Line := ⟨"view q".toList, by decide⟩

/-- A line that removes everything. -/
def removing : Line := ⟨"clear".toList, by decide⟩

/-- A mistake is told of, and then the conversation goes on as it would have. -/
theorem conversation_composes_mistaken :
    Options.parse ["--limit", "9"] = .ok { config := { messageLimit := 9 } } ∧
    (∀ l ∈ [storing], ¬ l.Quits) ∧ ¬ mistaken.Quits ∧
    (answer (sessionAfter (.new { messageLimit := 9 }) [storing]) mistaken.chars).text =
      "Non-existent function 'q' provided\n" ∧
    (run ["--limit", "9"] (typed ([storing] ++ [removing]))).text = "> ok\n> ok\n> " ∧
    (run ["--limit", "9"] (typed ([storing] ++ mistaken :: [removing]))).text =
      "> ok\n> Non-existent function 'q' provided\n> ok\n> " := by
  have hparse : Options.parse ["--limit", "9"] = .ok { config := { messageLimit := 9 } } := rfl
  have hstoring : ∀ l ∈ [storing], ¬ l.Quits := by
    intro l hl
    rw [List.mem_singleton.mp hl]
    exact (by decide : ¬ isQuit " set  f a ".toList = true)
  have hmistaken : ¬ mistaken.Quits := (by decide : ¬ isQuit "view q".toList = true)
  have hanswer : (answer (sessionAfter (.new { messageLimit := 9 }) [storing])
      mistaken.chars).text = "Non-existent function 'q' provided\n" := rfl
  have hfirst : (run ["--limit", "9"] (typed [storing])).text = "> ok\n> " := rfl
  have hwithout : (run ["--limit", "9"] (typed ([storing] ++ [removing]))).text =
      "> ok\n> ok\n> " := rfl
  obtain ⟨-, hsteps⟩ := (conversation_composes hparse).2.2 _ _ hstoring rfl
  obtain ⟨hok, hidle, hinserted⟩ := hsteps mistaken
  rw [hanswer] at hok
  have hidle := hidle fun hchange => absurd (hok.mpr hchange) (by decide)
  obtain ⟨others, rest, -, -, hrest, hwith⟩ := hinserted hmistaken hidle [removing]
  have hrest : rest = "ok\n> " := by
    have hshown : "> ok\n> ok\n> " = "> ok\n> " ++ "ok\n> " := by decide
    rw [hwithout, hfirst, hshown] at hrest
    exact ((String.append_right_inj _).mp hrest).symm
  refine ⟨hparse, hstoring, hmistaken, hanswer, hwithout, ?_⟩
  rw [hwith, hfirst, hanswer, hrest]
  decide

end Console

end Switching
