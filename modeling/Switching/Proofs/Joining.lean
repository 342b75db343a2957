/-
Texts put together and taken apart again.

A reply is put together from lines, and a statement is shown as words.  Taking the text
apart gives the parts back if no part holds what divides it from the next one and none is
empty; an empty part at the end of a text could not be seen at all.

Both readers keep the part that they are in the middle of, last character first.  So each
of the two inductions is over the characters of one part, with whatever has been read of
it already, and what comes behind the part is left open.
-/
import Switching.Text.Blank
import Switching.Text.Layout
import Switching.Text.Line

namespace Switching.Text

section

variable {text other separator : String} {parts : List String} {cs rest read : List Char}

theorem mem_intercalate {c : Char} (h : c ∈ (separator.intercalate parts).toList) :
    c ∈ separator.toList ∨ ∃ part ∈ parts, c ∈ part.toList := by
  induction parts with
  | nil => simp at h
  | cons part parts ih =>
      cases parts with
      | nil =>
          rw [String.intercalate_singleton] at h
          exact .inr ⟨part, by simp, h⟩
      | cons next parts =>
          rw [String.intercalate_cons_cons, String.toList_append, String.toList_append,
            List.mem_append, List.mem_append] at h
          rcases h with (h | h) | h
          · exact .inr ⟨part, by simp, h⟩
          · exact .inl h
          · rcases ih h with h | ⟨p, hp, h⟩
            · exact .inl h
            · exact .inr ⟨p, by simp [hp], h⟩

/-! ### Lines -/

/-- No character of the text ends a line, nor would one with a line feed behind it. -/
def Unbroken (text : String) : Prop :=
  ∀ c ∈ text.toList, c ≠ '\n' ∧ c ≠ '\r'

/-- It is decided on the characters of the text, not on all that there are. -/
instance (text : String) : Decidable (Unbroken text) :=
  List.decidableBAll (fun c => c ≠ '\n' ∧ c ≠ '\r') text.toList

theorem Unbroken.append (h : Unbroken text) (h' : Unbroken other) : Unbroken (text ++ other) := by
  intro c hc
  rw [String.toList_append, List.mem_append] at hc
  exact hc.elim (h c) (h' c)

theorem unbroken_intercalate (hseparator : Unbroken separator)
    (hparts : ∀ part ∈ parts, Unbroken part) : Unbroken (separator.intercalate parts) := by
  intro c hc
  rcases mem_intercalate hc with hc | ⟨part, hpart, hc⟩
  · exact hseparator c hc
  · exact hparts part hpart c hc

theorem unbroken_toString {c : Char} (h : c ≠ '\n' ∧ c ≠ '\r') : Unbroken c.toString := by
  intro c' hc'
  have heq : c' = c := by simpa using hc'
  rwa [heq]

/-- The characters that end lines are blanks. -/
theorem unbroken_of_not_blank (h : ∀ c ∈ text.toList, isBlank c = false) : Unbroken text := by
  intro c hc
  have hc := h c hc
  constructor
  · rintro rfl
    exact absurd hc (by decide)
  · rintro rfl
    exact absurd hc (by decide)

/-- A line that can be told from its neighbours: it is not empty and ends nowhere before its
end. -/
structure Whole (line : String) : Prop where
  /-- There is something on the line. -/
  ne_empty : line ≠ ""
  /-- There is one line and not several. -/
  unbroken : Unbroken line

/-- A text that begins with a character of its own is not empty. -/
theorem Whole.of_cons {c : Char} (h : Unbroken text) (hcs : text.toList = c :: cs) :
    Whole text where
  ne_empty := by
    rintro rfl
    cases hcs
  unbroken := h

theorem linesAfter_append (h : '\n' ∉ cs) (read rest : List Char) :
    linesAfter read (cs ++ rest) = linesAfter (cs.reverse ++ read) rest := by
  induction cs generalizing read with
  | nil => rfl
  | cons c cs ih =>
      have hc : c ≠ '\n' := by
        rintro rfl
        exact h (List.mem_cons_self ..)
      have hcs : '\n' ∉ cs := fun hin => h (List.mem_cons_of_mem _ hin)
      rw [List.cons_append, linesAfter, if_neg hc, ih hcs, List.reverse_cons,
        List.append_assoc, List.singleton_append]

/-- What stands before a line feed is closed as it is if no carriage return is in it. -/
theorem closeLine_reverse (h : '\r' ∉ cs) : closeLine cs.reverse = cs := by
  unfold closeLine
  split
  · rename_i line hline
    have hin : '\r' ∈ cs.reverse := by simp [hline]
    exact absurd (List.mem_reverse.mp hin) h
  · exact List.reverse_reverse cs

/-- **Lines one under another are read back as the lines.** -/
theorem lines_stacked (h : ∀ line ∈ parts, Whole line) :
    lines (stacked parts).toList = parts.map String.toList := by
  unfold stacked lines
  induction parts with
  | nil => simp [linesAfter]
  | cons line parts ih =>
      obtain ⟨hne, hunbroken⟩ := h line (by simp)
      have hfeed : '\n' ∉ line.toList := fun hin => (hunbroken _ hin).1 rfl
      have hreturn : '\r' ∉ line.toList := fun hin => (hunbroken _ hin).2 rfl
      cases parts with
      | nil =>
          have hread : line.toList.reverse ≠ [] := by simpa using hne
          have hlast := linesAfter_append hfeed [] []
          rw [List.append_nil, List.append_nil] at hlast
          rw [String.intercalate_singleton, hlast, linesAfter]
          · simp
          · exact hread
      | cons next parts =>
          have hrest := ih fun line hline => h line (by simp [hline])
          rw [String.intercalate_cons_cons, String.toList_append, String.toList_append,
            List.append_assoc, linesAfter_append hfeed, List.append_nil, List.map_cons, ← hrest]
          have hjoint : "\n".toList = ['\n'] := rfl
          rw [hjoint, List.singleton_append, linesAfter, if_pos rfl, closeLine_reverse hreturn]

/-! ### Words -/

/-- A word that can be told from its neighbours: it is not empty and holds no blank. -/
structure IsWord (word : String) : Prop where
  /-- There is a character in the word. -/
  ne_empty : word ≠ ""
  /-- No blank divides it. -/
  not_blank : ∀ c ∈ word.toList, isBlank c = false

instance (word : String) : Decidable (IsWord word) :=
  have _ : Decidable (∀ c ∈ word.toList, isBlank c = false) :=
    List.decidableBAll (fun c => isBlank c = false) word.toList
  decidable_of_iff (word ≠ "" ∧ ∀ c ∈ word.toList, isBlank c = false)
    ⟨fun h => ⟨h.1, h.2⟩, fun h => ⟨h.ne_empty, h.not_blank⟩⟩

theorem wordsAfter_append (h : ∀ c ∈ cs, isBlank c = false) (read rest : List Char) :
    wordsAfter read (cs ++ rest) = wordsAfter (cs.reverse ++ read) rest := by
  induction cs generalizing read with
  | nil => rfl
  | cons c cs ih =>
      have hcs : ∀ c ∈ cs, isBlank c = false := fun c hin => h c (List.mem_cons_of_mem _ hin)
      rw [List.cons_append, wordsAfter_cons (h c (List.mem_cons_self ..)), ih hcs,
        List.reverse_cons, List.append_assoc, List.singleton_append]

/-- **Words with one space between neighbours are read back as the words.** -/
theorem words_intercalate (h : ∀ word ∈ parts, IsWord word) :
    words (" ".intercalate parts).toList = parts.map String.toList := by
  unfold words
  induction parts with
  | nil => rfl
  | cons word parts ih =>
      obtain ⟨hne, hblank⟩ := h word (by simp)
      have hread : word.toList.reverse ++ [] ≠ [] := by simpa using hne
      cases parts with
      | nil =>
          have hlast := wordsAfter_append hblank [] []
          rw [List.append_nil] at hlast
          rw [String.intercalate_singleton, hlast, wordsAfter_nil hread]
          simp
      | cons next parts =>
          have hrest := ih fun word hword => h word (by simp [hword])
          have hjoint : " ".toList = [' '] := rfl
          rw [String.intercalate_cons_cons, String.toList_append, String.toList_append,
            List.append_assoc, wordsAfter_append hblank, hjoint, List.singleton_append,
            wordsAfter_space hread, hrest]
          simp

end

end Switching.Text
