/-
Commands and the lines that spell them.

A command is spelt by its words, and only blanks divide them: any number and any kind, but
between two words at least one.  The line may begin with the trigger, and blanks at either end
make no difference.  The last word of a definition is its expression, which is taken as it
stands and may hold blanks of its own.

For the words to be told apart no name may be a blank, and an expression may neither begin nor
end with one.  Such commands are well formed, and they are exactly the ones that lines are read
as: whatever line is accepted is read as a well-formed command, and each well-formed command
is read from every line that spells it.
-/
import Switching.Command
import Switching.Proofs.Blanks

namespace Switching.Command

open Text

/-! ### Spelling -/

/-- The names of the command are no blanks, there are targets for a table, and an expression
begins and ends with what is no blank. -/
def WellFormed : Command → Prop
  | .set name expression => isBlank name = false ∧ Trimmed expression.toList
  | .clear => True
  | .view .all _ => True
  | .view (.function name) _ => isBlank name = false
  | .table targets => targets ≠ [] ∧ ∀ c ∈ targets, isBlank c = false
  | .kmap target => isBlank target = false

/-- The word that says what to do. -/
def keyword : Command → String
  | .set .. => "set"
  | .clear => "clear"
  | .view .. => "view"
  | .table _ => "table"
  | .kmap _ => "kmap"

/-- The word for what a view shows. -/
def targetWord : ViewTarget → String
  | .all => "all"
  | .function name => name.toString

/-- The words that it is done to.  The last one of a definition is its expression. -/
def arguments : Command → List String
  | .set name expression => [name.toString, expression]
  | .clear => []
  | .view target expand => targetWord target :: if expand then ["insert"] else []
  | .table targets => targets.map Char.toString
  | .kmap target => [target.toString]

/-- The words of the command. -/
def spelling (c : Command) : List String :=
  c.keyword :: c.arguments

/-- The command in one line, with one space between its words. -/
def toLine (c : Command) : String :=
  " ".intercalate c.spelling

/-- The trigger with any blanks behind it, or nothing. -/
def Trigger (text : List Char) : Prop :=
  text = [] ∨ ∃ gap, Blanks gap ∧ text = ['!', 'b'] ++ gap

/-- The line holds the words of the command, in order and apart; there may be blanks at both
ends, and the trigger before the words. -/
def Spells (line : String) (c : Command) : Prop :=
  ∃ lead trigger body trail, Blanks lead ∧ Trigger trigger ∧
    Apart (c.spelling.map String.toList) body ∧ Blanks trail ∧
    line.toList = lead ++ ((trigger ++ body) ++ trail)

section

variable {c : Command} {line : String} {text body trigger word rest : List Char}
  {ws : List (List Char)} {cs : List Char} {name : Char}

/-- One space between words is enough, and nothing need stand around them. -/
theorem spells_toLine (c : Command) : Spells c.toLine c := by
  have hnothing : Blanks [] := by simp [Blanks]
  have hspaced : Apart (c.spelling.map String.toList) c.toLine.toList :=
    apart_intercalate (List.cons_ne_nil _ _)
  exact ⟨[], [], c.toLine.toList, [], hnothing, .inl rfl, hspaced, hnothing, by simp⟩

/-! ### The readers -/

/-- Reads a line without a trigger and without blanks at its ends. -/
def readBody (body : List Char) : Except CommandError Command :=
  match cut body with
  | some (subcommand, rest) => read subcommand (trim rest)
  | none => read body []

theorem parse_eq_ok_iff_readBody :
    parse line = .ok c ↔ readBody (dropTrigger (trim line.toList)) = .ok c := by
  simp only [parse, readBody]
  cases cut (dropTrigger (trim line.toList)) with
  | none => cases read (dropTrigger (trim line.toList)) [] <;> simp
  | some parts =>
      obtain ⟨subcommand, rest⟩ := parts
      dsimp only
      cases read subcommand (trim rest) <;> simp

theorem of_single (h : single word = .ok name) : word = [name] := by
  unfold single at h
  split at h
  · cases h
    rfl
  · cases h

theorem of_singles (h : singles ws = .ok cs) : ws = cs.map fun c => [c] := by
  induction ws generalizing cs with
  | nil =>
      cases h
      rfl
  | cons word ws ih =>
      unfold singles at h
      cases hword : single word with
      | error e =>
          rw [hword] at h
          cases h
      | ok c =>
          cases hws : singles ws with
          | error e =>
              rw [hword, hws] at h
              cases h
          | ok cs' =>
              rw [hword, hws] at h
              cases h
              rw [of_single hword, ih hws, List.map_cons]

theorem singles_map (cs : List Char) : singles (cs.map fun c => [c]) = .ok cs := by
  induction cs with
  | nil => rfl
  | cons c cs ih =>
      rw [List.map_cons, singles, ih]
      rfl

/-! ### What is read is well formed -/

theorem wellFormed_of_readSet (htight : Tight text) (h : readSet text = .ok c) :
    c.WellFormed := by
  unfold readSet at h
  split at h
  · rename_i name word expression hcut
    cases h
    refine ⟨(of_cut hcut).1 name (List.mem_cons_self ..), ?_⟩
    rw [String.toList_ofList]
    exact trimmed_of_cut htight hcut
  · cases h

theorem wellFormed_of_readView (hws : ∀ word ∈ ws, ∀ c ∈ word, isBlank c = false)
    (h : readView ws = .ok c) : c.WellFormed := by
  unfold readView at h
  split at h
  · cases h
  · rename_i target words
    by_cases hall : target = "all".toList
    · rw [if_pos hall] at h
      cases h
      trivial
    · rw [if_neg hall] at h
      split at h
      · cases h
      · rename_i name hsingle
        cases h
        have htarget := hws target (List.mem_cons_self ..)
        rw [of_single hsingle] at htarget
        exact htarget name (List.mem_cons_self ..)

theorem wellFormed_of_readTable (hws : ∀ word ∈ ws, ∀ c ∈ word, isBlank c = false)
    (h : readTable ws = .ok c) : c.WellFormed := by
  unfold readTable at h
  split at h
  · cases h
  · rename_i hne
    split at h
    · cases h
    · rename_i targets hsingles
      cases h
      have heq := of_singles hsingles
      constructor
      · rintro rfl
        exact hne heq
      · intro c hc
        refine hws [c] ?_ c (List.mem_cons_self ..)
        rw [heq]
        exact List.mem_map_of_mem hc

theorem wellFormed_of_readKmap (hws : ∀ word ∈ ws, ∀ c ∈ word, isBlank c = false)
    (h : readKmap ws = .ok c) : c.WellFormed := by
  unfold readKmap at h
  split at h
  · rename_i word
    split at h
    · cases h
    · rename_i name hsingle
      cases h
      have hword := hws word (List.mem_cons_self ..)
      rw [of_single hsingle] at hword
      exact hword name (List.mem_cons_self ..)
  · cases h

theorem wellFormed_of_read (htight : Tight text) (h : read word text = .ok c) :
    c.WellFormed := by
  have hwords : ∀ word ∈ words text, ∀ c ∈ word, isBlank c = false :=
    fun _ => not_blank_of_mem_words
  unfold read at h
  split_ifs at h
  · exact wellFormed_of_readSet htight h
  · cases h
    trivial
  · exact wellFormed_of_readView hwords h
  · exact wellFormed_of_readTable hwords h
  · exact wellFormed_of_readKmap hwords h

/-- **Every line that is accepted is read as a well-formed command.** -/
theorem wellFormed_of_parse (h : parse line = .ok c) : c.WellFormed := by
  rw [parse_eq_ok_iff_readBody, readBody] at h
  split at h
  · exact wellFormed_of_read (tight_trim _) h
  · have hnothing : Tight [] := ⟨by simp, by simp⟩
    exact wellFormed_of_read hnothing h

/-! ### What is spelt is read -/

theorem isWord_toString (h : isBlank name = false) : IsWord name.toString where
  ne_empty := by simp
  not_blank := by
    intro c hc
    have hc : c = name := by simpa using hc
    rwa [hc]

theorem isWord_keyword (c : Command) : IsWord c.keyword := by
  cases c <;> simp only [keyword] <;> decide

/-- Only an expression is more than one word. -/
theorem isWord_of_mem_arguments (h : c.WellFormed) (hset : ∀ name e, c ≠ .set name e) :
    ∀ word ∈ c.arguments, IsWord word := by
  intro word hword
  cases c with
  | set name e => exact absurd rfl (hset name e)
  | clear => cases hword
  | view target expand =>
      rcases List.mem_cons.mp hword with rfl | hword
      · cases target with
        | all => decide
        | function name => exact isWord_toString h
      · have hinsert : word = "insert" := by
          cases expand
          · cases hword
          · exact List.mem_singleton.mp hword
        rw [hinsert]
        decide
  | table targets =>
      obtain ⟨c, hc, rfl⟩ := List.mem_map.mp hword
      exact isWord_toString (h.2 c hc)
  | kmap target =>
      rw [arguments, List.mem_singleton] at hword
      rw [hword]
      exact isWord_toString h

theorem trimmed_of_mem_arguments (h : c.WellFormed) :
    ∀ word ∈ c.arguments, Trimmed word.toList := by
  intro word hword
  cases c with
  | set name e =>
      obtain ⟨hname, hexpression⟩ := h
      rcases List.mem_cons.mp hword with rfl | hword
      · exact (isWord_toString hname).trimmed
      · rwa [List.mem_singleton.mp hword]
  | clear | view | table | kmap =>
      exact (isWord_of_mem_arguments h (by simp) word hword).trimmed

/-- **A definition is read from its name and its expression**, with blanks between them. -/
theorem readSet_arguments {e : String} (h : WellFormed (.set name e))
    (happart : Apart [name.toString.toList, e.toList] text) :
    readSet text = .ok (.set name e) := by
  obtain ⟨hname, hexpression⟩ := h
  obtain ⟨rest, hcut, hrest⟩ := cut_of_apart happart (List.cons_ne_nil _ _)
    (isWord_toString hname).not_blank (by simpa using hexpression)
  have hword : name.toString.toList = [name] := by simp
  rw [hword] at hcut
  rw [readSet, hcut]
  simp only [eq_of_apart hrest, String.ofList_toList]

theorem readView_arguments (target : ViewTarget) (expand : Bool) :
    readView ((arguments (.view target expand)).map String.toList) = .ok (.view target expand) := by
  have hinsert : ((if expand then ["insert"] else []).map String.toList).any
      (· == "insert".toList) = expand := by
    cases expand <;> decide
  rw [arguments, List.map_cons, readView, hinsert]
  cases target with
  | all => exact if_pos rfl
  | function name =>
      have hword : (targetWord (.function name)).toList = [name] := by simp [targetWord]
      have hall : [name] ≠ "all".toList := by simp
      rw [hword, if_neg hall]
      rfl

theorem readTable_arguments {targets : List Char} (hne : targets ≠ []) :
    readTable ((arguments (.table targets)).map String.toList) = .ok (.table targets) := by
  have hwords : (arguments (.table targets)).map String.toList = targets.map fun c => [c] := by
    rw [arguments, List.map_map]
    exact List.map_congr_left fun c _ => by simp
  rw [hwords, readTable, singles_map]
  simpa using hne

/-- Words that stand apart behind a keyword are listed, unless one of them is an expression. -/
theorem words_of_arguments (h : c.WellFormed) (hset : ∀ name e, c ≠ .set name e)
    (happart : Apart (c.arguments.map String.toList) text) :
    words text = c.arguments.map String.toList := by
  refine words_of_apart happart fun part hpart => ?_
  obtain ⟨word, hword, rfl⟩ := List.mem_map.mp hpart
  have hisWord := isWord_of_mem_arguments h hset word hword
  exact ⟨by simpa using hisWord.ne_empty, hisWord.not_blank⟩

/-- **A command is read from its keyword and what stands apart behind it.** -/
theorem read_arguments (h : c.WellFormed) (happart : Apart (c.arguments.map String.toList) text) :
    read c.keyword.toList text = .ok c := by
  unfold read
  cases c with
  | set name e =>
      rw [keyword, if_pos rfl]
      exact readSet_arguments h happart
  | clear => cases happart
  | view target expand =>
      rw [keyword, if_neg (by decide), if_neg (by decide), if_pos rfl,
        words_of_arguments h (by simp) happart]
      exact readView_arguments target expand
  | table targets =>
      rw [keyword, if_neg (by decide), if_neg (by decide), if_neg (by decide), if_pos rfl,
        words_of_arguments h (by simp) happart]
      exact readTable_arguments h.1
  | kmap target =>
      rw [keyword, if_neg (by decide), if_neg (by decide), if_neg (by decide), if_neg (by decide),
        if_pos rfl, words_of_arguments h (by simp) happart]
      simp [arguments, readKmap, single]

theorem eq_clear_of_arguments (h : c.WellFormed) (hnone : c.arguments = []) : c = .clear := by
  cases c with
  | clear => rfl
  | set | view | kmap => cases hnone
  | table targets => exact absurd (List.map_eq_nil_iff.mp hnone) h.1

theorem trimmed_of_mem_spelling (h : c.WellFormed) :
    ∀ part ∈ c.spelling.map String.toList, Trimmed part := by
  intro part hpart
  obtain ⟨word, hword, rfl⟩ := List.mem_map.mp hpart
  rcases List.mem_cons.mp hword with rfl | hword
  · exact (isWord_keyword c).trimmed
  · exact trimmed_of_mem_arguments h word hword

/-- **The words of a command, apart from each other, are read as the command.** -/
theorem readBody_spelling (h : c.WellFormed)
    (happart : Apart (c.spelling.map String.toList) body) : readBody body = .ok c := by
  have hkeyword := (isWord_keyword c).not_blank
  rw [spelling, List.map_cons] at happart
  unfold readBody
  by_cases hnone : c.arguments = []
  · rw [hnone, List.map_nil] at happart
    rw [eq_of_apart happart, cut_of_not_blank hkeyword, eq_clear_of_arguments h hnone]
    show read "clear".toList [] = .ok .clear
    rw [read, if_neg (by decide), if_pos rfl]
  · have htrimmed : ∀ part ∈ c.arguments.map String.toList, Trimmed part := fun part hpart =>
      trimmed_of_mem_spelling h part (List.mem_cons_of_mem _ hpart)
    obtain ⟨rest, hcut, hrest⟩ := cut_of_apart happart (by simpa using hnone) hkeyword htrimmed
    rw [hcut]
    exact read_arguments h hrest

/-- The words of a command begin with a letter, never with the mark of the trigger. -/
theorem mark_not_mem_head? (happart : Apart (c.spelling.map String.toList) body) :
    '!' ∉ body.head? := by
  rw [spelling, List.map_cons] at happart
  rw [head?_of_apart happart (isWord_keyword c).trimmed.ne_nil]
  cases c <;> rw [keyword] <;> decide

/-- **What stands around the words is taken away.** -/
theorem dropTrigger_append (htrigger : Trigger trigger) (hbody : Trimmed body)
    (hmark : '!' ∉ body.head?) :
    Trimmed (trigger ++ body) ∧ dropTrigger (trigger ++ body) = body := by
  rcases htrigger with rfl | ⟨gap, hgap, rfl⟩
  · rw [List.nil_append]
    refine ⟨hbody, ?_⟩
    unfold dropTrigger
    split
    · exact absurd rfl hmark
    · rfl
  · have hmark : Trimmed ['!', 'b'] := .of_not_blank (by simp) (by simp; decide)
    rw [List.append_assoc]
    exact ⟨hmark.between hbody gap, trimStart_append hgap hbody.head⟩

/-- **Every line that spells a well-formed command is read as the command.** -/
theorem parse_of_spells (h : c.WellFormed) (hline : Spells line c) : parse line = .ok c := by
  obtain ⟨lead, trigger, body, trail, hlead, htrigger, happart, htrail, hline⟩ := hline
  have hbody := trimmed_of_apart happart (trimmed_of_mem_spelling h)
  obtain ⟨htrimmed, hdrop⟩ := dropTrigger_append htrigger hbody (mark_not_mem_head? happart)
  rw [parse_eq_ok_iff_readBody, hline, trim_append hlead htrimmed htrail, hdrop]
  exact readBody_spelling h happart

/-- **Commands and lines correspond.**  What a line is read as is a well-formed command; and a
well-formed command is read from its own line, and from any other that spells it with other
blanks or with the trigger. -/
theorem lines_spell_commands :
    (∀ line c, parse line = .ok c → c.WellFormed) ∧
    ∀ c : Command, c.WellFormed →
      parse c.toLine = .ok c ∧ ∀ line, Spells line c → parse line = .ok c := by
  refine ⟨fun _ _ => wellFormed_of_parse, fun c hc => ⟨?_, fun _ => parse_of_spells hc⟩⟩
  exact parse_of_spells hc (spells_toLine c)

end

/-- A definition of the name `$` whose expression holds blanks and looks like a command. -/
def disguised : Command :=
  .set '$' "set\tf  a"

/-- It is read from its own line, and with the trigger, wide blanks and a line end around. -/
theorem lines_spell_commands_disguised : disguised.WellFormed ∧
    disguised.toLine = "set $ set\tf  a" ∧ parse "set $ set\tf  a" = .ok disguised ∧
    Spells " !b\u3000set \t$\u00a0set\tf  a\r" disguised ∧
    parse " !b\u3000set \t$\u00a0set\tf  a\r" = .ok disguised := by
  have hblanks : ∀ text : List Char, text.all isBlank = true → Blanks text := by
    intro text h c hc
    exact List.all_eq_true.mp h c hc
  have hwell : disguised.WellFormed := by
    refine ⟨by decide, ⟨?_, ?_⟩, by decide⟩ <;> simp <;> decide
  have hline : disguised.toLine = "set $ set\tf  a" := rfl
  have hspells : Spells " !b\u3000set \t$\u00a0set\tf  a\r" disguised := by
    refine ⟨" ".toList, "!b\u3000".toList, "set \t$\u00a0set\tf  a".toList, "\r".toList,
      hblanks _ (by decide), .inr ⟨"\u3000".toList, hblanks _ (by decide), by decide⟩, ?_,
      hblanks _ (by decide), by decide⟩
    exact .next (hblanks " \t".toList (by decide)) (by decide)
      (.next (hblanks "\u00a0".toList (by decide)) (by decide) (.last _))
  obtain ⟨hown, hother⟩ := lines_spell_commands.2 disguised hwell
  rw [hline] at hown
  exact ⟨hwell, hline, hown, hspells, hother _ hspells⟩

end Switching.Command
