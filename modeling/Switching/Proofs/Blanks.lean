/-
Blanks around words and between them.

A line is taken apart at blanks in three ways: both ends are trimmed, a text is cut at its
first blank, or its words are listed.  Each of the three is described here by what it makes of
a text that is put together from parts: a trimmed text with blanks around it, a word with a
blank behind it, and words that stand `Apart`, which is to say with one blank or more between
neighbours.  How many blanks there are, and which ones, never matters.

The other way round, what has been trimmed neither begins nor ends with a blank, and what has
been cut off or listed holds none, whatever text it comes from.
-/
import Mathlib.Data.List.Basic
import Mathlib.Data.List.TakeWhile
import Switching.Proofs.Joining

namespace Switching.Text

/-- There is nothing but blanks. -/
def Blanks (text : List Char) : Prop :=
  ∀ c ∈ text, isBlank c = true

/-- The text neither begins nor ends with a blank. -/
structure Tight (text : List Char) : Prop where
  /-- The first character is no blank. -/
  head : ∀ c ∈ text.head?, isBlank c = false
  /-- The last character is no blank. -/
  last : ∀ c ∈ text.getLast?, isBlank c = false

/-- The text has a first and a last character, and neither is a blank. -/
structure Trimmed (text : List Char) : Prop extends Tight text where
  /-- There is something in it. -/
  ne_nil : text ≠ []

/-- The parts stand one behind another with blanks between neighbours. -/
inductive Apart : List (List Char) → List Char → Prop
  /-- One part stands by itself. -/
  | last (part : List Char) : Apart [part] part
  /-- A part stands before the others, and at least one blank between. -/
  | next {part gap text : List Char} {parts : List (List Char)} (blanks : Blanks gap)
      (ne_nil : gap ≠ []) (rest : Apart parts text) : Apart (part :: parts) (part ++ (gap ++ text))

section

variable {text lead trail gap word rest read part : List Char} {parts : List (List Char)}
  {b c : Char}

theorem Blanks.append (h : Blanks text) (h' : Blanks rest) : Blanks (text ++ rest) := by
  intro c hc
  rcases List.mem_append.mp hc with hc | hc
  · exact h c hc
  · exact h' c hc

theorem Blanks.reverse (h : Blanks text) : Blanks text.reverse :=
  fun c hc => h c (List.mem_reverse.mp hc)

/-- Characters that are no blanks make up a trimmed text. -/
theorem Trimmed.of_not_blank (hne : text ≠ []) (h : ∀ c ∈ text, isBlank c = false) :
    Trimmed text where
  head := fun c hc => h c (List.mem_of_mem_head? hc)
  last := fun c hc => h c (List.mem_of_mem_getLast? hc)
  ne_nil := hne

theorem IsWord.trimmed {word : String} (h : IsWord word) : Trimmed word.toList :=
  .of_not_blank (by simpa using h.ne_empty) h.not_blank

/-- A trimmed text begins where its first part begins and ends where its last part ends. -/
theorem Trimmed.between (h : Trimmed word) (h' : Trimmed rest) (gap : List Char) :
    Trimmed (word ++ (gap ++ rest)) where
  head := by
    rw [List.head?_append_of_ne_nil _ h.ne_nil]
    exact h.head
  last := by
    rw [← List.append_assoc, List.getLast?_append_of_ne_nil _ h'.ne_nil]
    exact h'.last
  ne_nil := by simp [h.ne_nil]

/-! ### Trimming -/

theorem trimStart_append (hlead : Blanks lead) (h : ∀ c ∈ text.head?, isBlank c = false) :
    trimStart (lead ++ text) = text := by
  unfold trimStart
  rw [List.dropWhile_append_of_pos hlead]
  cases text with
  | nil => rfl
  | cons c text => exact List.dropWhile_cons_of_neg (by simp [h c rfl])

theorem trimEnd_append (htrail : Blanks trail) (h : ∀ c ∈ text.getLast?, isBlank c = false) :
    trimEnd (text ++ trail) = text := by
  have hstart : trimStart (trail.reverse ++ text.reverse) = text.reverse :=
    trimStart_append htrail.reverse (by rwa [List.head?_reverse])
  unfold trimStart at hstart
  unfold trimEnd
  rw [List.reverse_append, hstart, List.reverse_reverse]

/-- **Trimming takes away what stands around a trimmed text**, and nothing of the text. -/
theorem trim_append (hlead : Blanks lead) (h : Trimmed text) (htrail : Blanks trail) :
    trim (lead ++ (text ++ trail)) = text := by
  unfold trim
  rw [trimStart_append hlead, trimEnd_append htrail h.last]
  rw [List.head?_append_of_ne_nil _ h.ne_nil]
  exact h.head

theorem exists_trimStart (text : List Char) : ∃ lead, Blanks lead ∧
    text = lead ++ trimStart text ∧ ∀ c ∈ (trimStart text).head?, isBlank c = false := by
  refine ⟨text.takeWhile isBlank, fun c hc => List.mem_takeWhile_imp hc, ?_, ?_⟩
  · exact (List.takeWhile_append_dropWhile ..).symm
  · intro c hc
    have := List.head?_dropWhile_not isBlank text
    unfold trimStart at hc
    rw [Option.mem_def] at hc
    simpa [hc] using this

theorem exists_trimEnd (text : List Char) : ∃ trail, Blanks trail ∧
    text = trimEnd text ++ trail ∧ ∀ c ∈ (trimEnd text).getLast?, isBlank c = false := by
  obtain ⟨lead, hlead, htext, hhead⟩ := exists_trimStart text.reverse
  have hend : trimEnd text = (trimStart text.reverse).reverse := rfl
  refine ⟨lead.reverse, hlead.reverse, ?_, ?_⟩
  · rw [hend, ← List.reverse_append, ← htext, List.reverse_reverse]
  · rwa [hend, List.getLast?_reverse]

/-- **What trimming leaves is tight**, and what it takes away is blanks at the two ends. -/
theorem exists_trim (text : List Char) : ∃ lead trail, Blanks lead ∧ Blanks trail ∧
    text = lead ++ (trim text ++ trail) ∧ Tight (trim text) := by
  obtain ⟨lead, hlead, htext, hhead⟩ := exists_trimStart text
  obtain ⟨trail, htrail, hrest, hlast⟩ := exists_trimEnd (trimStart text)
  refine ⟨lead, trail, hlead, htrail, ?_, ?_, hlast⟩
  · unfold trim
    rw [← hrest, ← htext]
  · intro c hc
    refine hhead c ?_
    rw [hrest]
    exact List.mem_head?_append_of_mem_head? hc

theorem tight_trim (text : List Char) : Tight (trim text) := by
  obtain ⟨_, _, -, -, -, h⟩ := exists_trim text
  exact h

/-- A text of blanks is trimmed to nothing. -/
theorem trim_of_blanks (h : Blanks text) : trim text = [] := by
  obtain ⟨lead, trail, -, -, htext, htight⟩ := exists_trim text
  cases hrest : trim text with
  | nil => rfl
  | cons c rest =>
      rw [hrest] at htext htight
      have hblank : isBlank c = true := h c (by rw [htext]; simp)
      rw [htight.head c rfl] at hblank
      cases hblank

/-- Blanks at the end make no difference. -/
theorem trim_append_blanks (text : List Char) (htrail : Blanks trail) :
    trim (text ++ trail) = trim text := by
  obtain ⟨lead, rest, hlead, hrest, htext, htight⟩ := exists_trim text
  by_cases hnil : trim text = []
  · rw [hnil, List.nil_append] at htext
    have hblanks : Blanks (text ++ trail) := by
      rw [htext]
      exact (hlead.append hrest).append htrail
    rw [trim_of_blanks hblanks, hnil]
  · have hlonger : text ++ trail = lead ++ (trim text ++ (rest ++ trail)) := by
      conv_lhs => rw [htext]
      simp
    rw [hlonger, trim_append hlead ⟨htight, hnil⟩ (hrest.append htrail)]

/-! ### Cutting -/

/-- A text is cut behind its first word. -/
theorem cut_append (hword : ∀ c ∈ word, isBlank c = false) (hb : isBlank b = true) :
    cut (word ++ b :: rest) = some (word, rest) := by
  have hdrop : (word ++ b :: rest).dropWhile (!isBlank ·) = b :: rest := by
    rw [List.dropWhile_append_of_pos fun c hc => by simpa using hword c hc]
    exact List.dropWhile_cons_of_neg (by simpa using hb)
  have htake : (word ++ b :: rest).takeWhile (!isBlank ·) = word := by
    rw [List.takeWhile_append_of_pos fun c hc => by simpa using hword c hc,
      List.takeWhile_cons_of_neg (by simpa using hb), List.append_nil]
  rw [cut, hdrop, htake]

/-- A word by itself is not cut. -/
theorem cut_of_not_blank (hword : ∀ c ∈ word, isBlank c = false) : cut word = none := by
  have hdrop : word.dropWhile (!isBlank ·) = [] :=
    List.dropWhile_eq_nil_iff.mpr fun c hc => by simpa using hword c hc
  rw [cut, hdrop]

/-- What has been cut was a word, a blank and the rest. -/
theorem of_cut (h : cut text = some (word, rest)) : (∀ c ∈ word, isBlank c = false) ∧
    ∃ b, isBlank b = true ∧ text = word ++ b :: rest := by
  unfold cut at h
  split at h
  · cases h
  · rename_i b rest' hdrop
    rw [Option.some.injEq, Prod.mk.injEq] at h
    obtain ⟨rfl, rfl⟩ := h
    refine ⟨fun c hc => by simpa using List.mem_takeWhile_imp hc, b, ?_, ?_⟩
    · have := List.head?_dropWhile_not (!isBlank ·) text
      simpa [hdrop] using this
    · rw [← hdrop, List.takeWhile_append_dropWhile]

/-- Behind the cut of a tight text there is something that is no blank. -/
theorem trimmed_of_cut (htight : Tight text) (h : cut text = some (word, rest)) :
    Trimmed (trim rest) := by
  obtain ⟨-, b, hb, rfl⟩ := of_cut h
  obtain ⟨lead, trail, hlead, htrail, hrest, htrim⟩ := exists_trim rest
  refine ⟨htrim, fun hnil => ?_⟩
  have hblanks : Blanks (b :: rest) := by
    rw [hnil, List.nil_append] at hrest
    rw [hrest]
    intro c hc
    rcases List.mem_cons.mp hc with rfl | hc
    · exact hb
    · exact hlead.append htrail c hc
  -- so the blank that was cut at, or one behind it, is the last character of the text
  have hlast := htight.last ((b :: rest).getLast (List.cons_ne_nil _ _)) (by
    rw [List.getLast?_append_cons]
    exact List.getLast?_eq_some_getLast _)
  rw [hblanks _ (List.getLast_mem _)] at hlast
  cases hlast

/-! ### Listing words -/

/-- Blanks before a word are passed over. -/
theorem wordsAfter_blanks (hgap : Blanks gap) (rest : List Char) :
    wordsAfter [] (gap ++ rest) = wordsAfter [] rest := by
  induction gap with
  | nil => rfl
  | cons b gap ih =>
      have hb : isBlank b = true := hgap b (List.mem_cons_self ..)
      have hstep : wordsAfter [] (b :: (gap ++ rest)) =
          if isBlank b then wordsAfter [] (gap ++ rest)
          else wordsAfter [b] (gap ++ rest) := rfl
      rw [List.cons_append, hstep, if_pos hb]
      exact ih fun c hc => hgap c (List.mem_cons_of_mem _ hc)

/-- A word is complete where a blank comes. -/
theorem wordsAfter_blank (hread : read ≠ []) (hb : isBlank b = true) (rest : List Char) :
    wordsAfter read (b :: rest) = read.reverse :: wordsAfter [] rest := by
  obtain ⟨c, read, rfl⟩ := List.exists_cons_of_ne_nil hread
  have hstep : wordsAfter (c :: read) (b :: rest) =
      if isBlank b then (c :: read).reverse :: wordsAfter [] rest
      else wordsAfter (b :: c :: read) rest := rfl
  rw [hstep, if_pos hb]

/-- **Words that stand apart are listed as they are.** -/
theorem words_of_apart (h : Apart parts text)
    (hparts : ∀ part ∈ parts, part ≠ [] ∧ ∀ c ∈ part, isBlank c = false) :
    words text = parts := by
  unfold words
  induction h with
  | last part =>
      obtain ⟨hne, hblank⟩ := hparts part (List.mem_cons_self ..)
      have hread := wordsAfter_append hblank [] []
      rw [List.append_nil, List.append_nil] at hread
      rw [hread, wordsAfter_nil (by simpa using hne), List.reverse_reverse]
  | @next part gap text parts hgap hne hrest ih =>
      obtain ⟨hpart, hblank⟩ := hparts part (List.mem_cons_self ..)
      obtain ⟨b, gap, rfl⟩ := List.exists_cons_of_ne_nil hne
      have hb : isBlank b = true := hgap b (List.mem_cons_self ..)
      have hlater : Blanks gap := fun c hc => hgap c (List.mem_cons_of_mem _ hc)
      rw [wordsAfter_append hblank, List.append_nil, List.cons_append,
        wordsAfter_blank (by simpa using hpart) hb, wordsAfter_blanks hlater,
        List.reverse_reverse, ih fun part hin => hparts part (List.mem_cons_of_mem _ hin)]

/-- No word that is listed holds a blank. -/
theorem not_blank_of_mem_wordsAfter (hread : ∀ c ∈ read, isBlank c = false)
    (h : word ∈ wordsAfter read text) : ∀ c ∈ word, isBlank c = false := by
  induction text generalizing read with
  | nil =>
      cases read with
      | nil => cases h
      | cons c read =>
          rw [wordsAfter_nil (List.cons_ne_nil _ _), List.mem_singleton] at h
          rw [h]
          exact fun c' hc' => hread c' (List.mem_reverse.mp hc')
  | cons c text ih =>
      by_cases hc : isBlank c = true
      · cases read with
        | nil =>
            have hskip : wordsAfter [] ([c] ++ text) = wordsAfter [] text :=
              wordsAfter_blanks (by simpa [Blanks] using hc) text
            rw [List.singleton_append] at hskip
            rw [hskip] at h
            exact ih hread h
        | cons d read =>
            rw [wordsAfter_blank (List.cons_ne_nil _ _) hc] at h
            rcases List.mem_cons.mp h with rfl | h
            · exact fun c' hc' => hread c' (List.mem_reverse.mp hc')
            · exact ih (by simp) h
      · rw [Bool.not_eq_true] at hc
        rw [wordsAfter_cons hc] at h
        refine ih (fun c' hc' => ?_) h
        rcases List.mem_cons.mp hc' with rfl | hc'
        · exact hc
        · exact hread c' hc'

theorem not_blank_of_mem_words (h : word ∈ words text) : ∀ c ∈ word, isBlank c = false :=
  not_blank_of_mem_wordsAfter (by simp) h

/-! ### Parts that stand apart -/

theorem trimmed_of_apart (h : Apart parts text) (hparts : ∀ part ∈ parts, Trimmed part) :
    Trimmed text := by
  induction h with
  | last part => exact hparts part (List.mem_cons_self ..)
  | @next part gap text parts hgap hne hrest ih =>
      have hpart := hparts part (List.mem_cons_self ..)
      exact hpart.between (ih fun part hin => hparts part (List.mem_cons_of_mem _ hin)) gap

theorem eq_of_apart (h : Apart [part] text) : text = part := by
  cases h with
  | last => rfl
  | next _ _ hnone => cases hnone

theorem head?_of_apart (h : Apart (word :: parts) text) (hne : word ≠ []) :
    text.head? = word.head? := by
  cases h with
  | last => rfl
  | next => exact List.head?_append_of_ne_nil _ hne

/-- **The first part is cut off and the others are trimmed.** -/
theorem cut_of_apart (h : Apart (word :: parts) text) (hne : parts ≠ [])
    (hword : ∀ c ∈ word, isBlank c = false) (hparts : ∀ part ∈ parts, Trimmed part) :
    ∃ rest, cut text = some (word, rest) ∧ Apart parts (trim rest) := by
  cases h with
  | last => exact absurd rfl hne
  | @next _ gap text _ hgap hgapne hrest =>
      obtain ⟨b, gap, rfl⟩ := List.exists_cons_of_ne_nil hgapne
      have hlater : Blanks gap := fun c hc => hgap c (List.mem_cons_of_mem _ hc)
      have htrim : trim (gap ++ (text ++ [])) = text :=
        trim_append hlater (trimmed_of_apart hrest hparts) (by simp [Blanks])
      rw [List.append_nil] at htrim
      refine ⟨gap ++ text, ?_, by rwa [htrim]⟩
      exact cut_append hword (hgap b (List.mem_cons_self ..))

/-- One space between neighbours is enough. -/
theorem apart_intercalate {words : List String} (h : words ≠ []) :
    Apart (words.map String.toList) (" ".intercalate words).toList := by
  induction words with
  | nil => exact absurd rfl h
  | cons word words ih =>
      cases words with
      | nil =>
          rw [String.intercalate_singleton]
          exact .last _
      | cons next words =>
          have hspace : Blanks " ".toList := by
            intro c hc
            have hc : c = ' ' := by simpa using hc
            rw [hc]
            rfl
          rw [String.intercalate_cons_cons, String.toList_append, String.toList_append,
            List.append_assoc]
          exact .next hspace (by simp) (ih (List.cons_ne_nil _ _))

end

end Switching.Text
