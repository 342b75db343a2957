/-
Which lines the pages hold.

Pages are looked at here as sheets, the lines that are on one page.  A line goes under the
last one if there is room for it, and otherwise begins a sheet of its own; but a blank line
begins none.  With nothing on it a page cannot be told from one that has not begun, so the
line that comes next is put in its place.

The blank lines that come where a page is to begin are therefore lost, and nothing else is.
Whether a line is one of them can be seen when it comes: either there is no page yet or the
last one is full.  Once it is lost the last page is as full as it was, so no later line goes
on that page either; this is why the pages so far say all that the next line needs to know.
-/
import Mathlib.Data.List.Basic
import Mathlib.Data.List.Induction
import Switching.Page
import Switching.Text.Layout

namespace Switching

/-! ### Lines one under another -/

namespace Text

/-- Lines one under another. -/
def ofLines (lines : List (List Char)) : String :=
  stacked (lines.map String.ofList)

section

variable {lines others : List (List Char)} {sheets : List (List (List Char))}

theorem ofLines_append (hlines : lines ≠ []) (hothers : others ≠ []) :
    ofLines (lines ++ others) = ofLines lines ++ "\n" ++ ofLines others := by
  unfold ofLines stacked
  rw [List.map_append]
  exact String.intercalate_append_of_ne_nil (by simpa using hlines) (by simpa using hothers)

theorem ofLines_singleton (line : List Char) : ofLines [line] = String.ofList line :=
  String.intercalate_singleton (s := "\n")

theorem ofLines_concat (hlines : lines ≠ []) (line : List Char) :
    ofLines (lines ++ [line]) = ofLines lines ++ "\n" ++ String.ofList line := by
  rw [ofLines_append hlines (List.cons_ne_nil line []), ofLines_singleton]

theorem length_ofLines_concat (hlines : lines ≠ []) (line : List Char) :
    (ofLines (lines ++ [line])).length = (ofLines lines).length + 1 + line.length := by
  have hfeed : "\n".length = 1 := rfl
  rw [ofLines_concat hlines, String.length_append, String.length_append, hfeed,
    String.length_ofList]

/-- Sheets one under another are all their lines one under another. -/
theorem stacked_map_ofLines (h : ∀ sheet ∈ sheets, sheet ≠ []) :
    stacked (sheets.map ofLines) = ofLines sheets.flatten := by
  induction sheets with
  | nil => rfl
  | cons sheet sheets ih =>
      have hsheet : sheet ≠ [] := h sheet (List.mem_cons_self ..)
      have hsheets : ∀ s ∈ sheets, s ≠ [] := fun s hs => h s (List.mem_cons_of_mem _ hs)
      cases sheets with
      | nil => simp [stacked]
      | cons next sheets =>
          have hrest : (next :: sheets).flatten ≠ [] := by
            rw [List.flatten_cons]
            exact List.append_ne_nil_of_left_ne_nil (hsheets next (List.mem_cons_self ..)) _
          rw [List.flatten_cons, ofLines_append hsheet hrest, ← ih hsheets]
          exact String.intercalate_cons_cons

/-- With one more line feed behind it the text has one behind each line. -/
theorem toList_ofLines (h : lines ≠ []) :
    (ofLines lines).toList ++ ['\n'] = lines.flatMap (· ++ ['\n']) := by
  induction lines with
  | nil => exact absurd rfl h
  | cons line lines ih =>
      by_cases hlines : lines = []
      · subst hlines
        rw [ofLines_singleton, String.toList_ofList, List.flatMap_singleton]
      · have happend := ofLines_append (List.cons_ne_nil line []) hlines
        rw [List.singleton_append, ofLines_singleton] at happend
        have hfeed : "\n".toList = ['\n'] := rfl
        rw [happend, List.flatMap_cons, ← ih hlines, String.toList_append, String.toList_append,
          String.toList_ofList, hfeed, List.append_assoc]

/-- Lines that are left out can be seen to be missing. -/
theorem eq_of_sublist_of_ofLines (hsub : lines.Sublist others) (hlines : lines ≠ [])
    (h : ofLines lines = ofLines others) : lines = others := by
  have hothers : others ≠ [] := by
    rintro rfl
    exact hlines (List.sublist_nil.mp hsub)
  obtain ⟨missing, hperm⟩ := hsub.exists_perm_append
  have hlength := (hperm.flatMap_right (· ++ ['\n'])).length_eq
  rw [List.flatMap_append, List.length_append, ← toList_ofLines hothers, ← toList_ofLines hlines,
    h] at hlength
  have hmissing : missing = [] := by
    cases missing with
    | nil => rfl
    | cons line missing =>
        simp only [List.flatMap_cons, List.length_append, List.length_singleton] at hlength
        omega
  rw [hmissing, List.append_nil] at hperm
  exact hsub.eq_of_length hperm.length_eq.symm

/-- The text is empty where there is no line, and where there is one and it is blank. -/
theorem ofLines_eq_empty_iff : ofLines lines = "" ↔ lines = [] ∨ lines = [[]] := by
  constructor
  · intro h
    by_cases hlines : lines = []
    · exact .inl hlines
    · have hfeeds := toList_ofLines hlines
      obtain ⟨line, rest, rfl⟩ := List.exists_cons_of_ne_nil hlines
      rw [h, List.flatMap_cons, List.append_assoc] at hfeeds
      have hlength := congrArg List.length hfeeds
      simp only [String.toList_empty, List.length_append, List.length_nil,
        List.length_singleton] at hlength
      have hline : line = [] := List.eq_nil_of_length_eq_zero (by omega)
      cases rest with
      | nil => exact .inr (by rw [hline])
      | cons next rest =>
          simp only [List.flatMap_cons, List.length_append, List.length_singleton] at hlength
          omega
  · rintro (rfl | rfl) <;> rfl

/-- The text without some of the lines is the text only if none was left out, or if all that
there was is one blank line. -/
theorem ofLines_eq_iff_of_sublist (hsub : lines.Sublist others) :
    ofLines lines = ofLines others ↔ lines = others ∨ lines = [] ∧ others = [[]] := by
  constructor
  · intro h
    by_cases hlines : lines = []
    · subst hlines
      rcases ofLines_eq_empty_iff.mp h.symm with hothers | hothers
      · exact .inl hothers.symm
      · exact .inr ⟨rfl, hothers⟩
    · exact .inl (eq_of_sublist_of_ofLines hsub hlines h)
  · rintro (rfl | ⟨rfl, rfl⟩) <;> rfl

end

end Text

/-! ### What one more line does to the pages -/

/-- The pages for these lines. -/
def pagesOf (limit : Nat) (lines : List (List Char)) : List String :=
  fillPages limit (.start []) lines

/-- There is a last page, and the line can go on it. -/
def Room (limit : Nat) (pages : List String) (line : List Char) : Prop :=
  ∃ page, pages.getLast? = some page ∧ page.length + 1 + line.length ≤ limit

section

variable {limit : Nat} {draft : Draft} {line : List Char} {lines : List (List Char)}
  {page : String} {pages : List String}

/-! A page that holds no character gives way to the line that comes. -/

theorem fillPages_nil_of_empty (hsize : draft.size = 0) : fillPages limit draft [] = [] := by
  rw [fillPages, if_pos hsize]

theorem fillPages_nil (hsize : draft.size ≠ 0) : fillPages limit draft [] = [draft.text] := by
  rw [fillPages, if_neg hsize]

theorem fillPages_cons_of_empty (hsize : draft.size = 0) :
    fillPages limit draft (line :: lines) = fillPages limit (.start line) lines := by
  rw [fillPages, if_pos hsize]

theorem fillPages_cons_of_full (hsize : draft.size ≠ 0)
    (hfull : limit < draft.size + 1 + line.length) :
    fillPages limit draft (line :: lines) = draft.text :: fillPages limit (.start line) lines := by
  rw [fillPages, if_neg hsize, if_pos hfull]

theorem fillPages_cons_of_room (hsize : draft.size ≠ 0)
    (hroom : draft.size + 1 + line.length ≤ limit) :
    fillPages limit draft (line :: lines) = fillPages limit (draft.add line) lines := by
  rw [fillPages, if_neg hsize, if_neg (Nat.not_lt.mpr hroom)]

theorem Draft.size_add_ne_zero (draft : Draft) (line : List Char) : (draft.add line).size ≠ 0 := by
  simp [Draft.add]

/-- A page that holds something is sent, sooner or later. -/
theorem fillPages_ne_nil (hsize : draft.size ≠ 0) : fillPages limit draft lines ≠ [] := by
  induction lines generalizing draft with
  | nil =>
      rw [fillPages_nil hsize]
      exact List.cons_ne_nil _ _
  | cons line lines ih =>
      rcases Nat.lt_or_ge limit (draft.size + 1 + line.length) with hfull | hroom
      · rw [fillPages_cons_of_full hsize hfull]
        exact List.cons_ne_nil _ _
      · rw [fillPages_cons_of_room hsize hroom]
        exact ih (draft.size_add_ne_zero line)

/-- Only a blank line can begin a page that is never sent. -/
theorem eq_nil_of_fillPages_start (h : fillPages limit (.start line) lines = []) : line = [] := by
  by_contra hline
  have hstart : (Draft.start line).size ≠ 0 := by simpa [Draft.start] using hline
  exact fillPages_ne_nil hstart h

theorem room_concat :
    Room limit (pages ++ [page]) line ↔ page.length + 1 + line.length ≤ limit := by
  unfold Room
  rw [List.getLast?_concat]
  constructor
  · rintro ⟨_, heq, h⟩
    cases heq
    exact h
  · exact fun h => ⟨page, rfl, h⟩

theorem Room.cons (h : Room limit pages line) : Room limit (page :: pages) line := by
  obtain ⟨last, hlast, hroom⟩ := h
  refine ⟨last, ?_, hroom⟩
  rw [List.getLast?_cons, hlast, Option.getD_some]

/-- **A line for which there is room goes on the last page.** -/
theorem fillPages_concat_of_room (h : fillPages limit draft lines = pages ++ [page])
    (hroom : page.length + 1 + line.length ≤ limit) :
    fillPages limit draft (lines ++ [line]) = pages ++ [page ++ "\n" ++ String.ofList line] := by
  induction lines generalizing draft pages with
  | nil =>
      by_cases hsize : draft.size = 0
      · rw [fillPages_nil_of_empty hsize] at h
        simp at h
      · rw [fillPages_nil hsize, ← List.nil_append [draft.text]] at h
        obtain ⟨rfl, hpage⟩ := List.append_inj' h rfl
        cases hpage
        rw [← draft.size_eq] at hroom
        rw [List.nil_append, fillPages_cons_of_room hsize hroom,
          fillPages_nil (draft.size_add_ne_zero line)]
        rfl
  | cons first lines ih =>
      rw [List.cons_append]
      by_cases hsize : draft.size = 0
      · rw [fillPages_cons_of_empty hsize] at h ⊢
        exact ih h
      rcases Nat.lt_or_ge limit (draft.size + 1 + first.length) with hfull | hfits
      · rw [fillPages_cons_of_full hsize hfull] at h ⊢
        cases pages with
        | nil =>
            -- the last page would be one that had no room even for a blank line
            obtain ⟨hpage, hrest⟩ := List.cons_eq_cons.mp h
            rw [eq_nil_of_fillPages_start hrest, draft.size_eq, hpage, List.length_nil] at hfull
            omega
        | cons earlier pages =>
            obtain ⟨hpage, hrest⟩ := List.cons_eq_cons.mp h
            rw [ih hrest, hpage, List.cons_append]
      · rw [fillPages_cons_of_room hsize hfits] at h ⊢
        exact ih h

/-- **A line for which there is no room is put where a new page begins.** -/
theorem fillPages_concat_of_not_room (h : ¬ Room limit (fillPages limit draft lines) line) :
    fillPages limit draft (lines ++ [line]) =
      fillPages limit draft lines ++ fillPages limit (.start line) [] := by
  induction lines generalizing draft with
  | nil =>
      rw [List.nil_append]
      by_cases hsize : draft.size = 0
      · rw [fillPages_cons_of_empty hsize, fillPages_nil_of_empty hsize, List.nil_append]
      · rw [fillPages_nil hsize, ← List.nil_append [draft.text], room_concat, ← draft.size_eq,
          Nat.not_le] at h
        rw [fillPages_cons_of_full hsize h, fillPages_nil hsize, List.singleton_append]
  | cons first lines ih =>
      rw [List.cons_append]
      by_cases hsize : draft.size = 0
      · rw [fillPages_cons_of_empty hsize] at h
        rw [fillPages_cons_of_empty hsize, fillPages_cons_of_empty hsize]
        exact ih h
      rcases Nat.lt_or_ge limit (draft.size + 1 + first.length) with hfull | hfits
      · rw [fillPages_cons_of_full hsize hfull] at h
        rw [fillPages_cons_of_full hsize hfull, fillPages_cons_of_full hsize hfull,
          ih fun hroom => h hroom.cons, List.cons_append]
      · rw [fillPages_cons_of_room hsize hfits] at h
        rw [fillPages_cons_of_room hsize hfits, fillPages_cons_of_room hsize hfits]
        exact ih h

/-- A line alone makes a page, unless it is blank. -/
theorem fillPages_start (limit : Nat) (line : List Char) :
    fillPages limit (.start line) [] = if line = [] then [] else [String.ofList line] := by
  unfold fillPages Draft.start
  simp only [List.length_eq_zero_iff]

end

/-! ### The sheets -/

/-- The lines are put on these sheets, one line after another. -/
inductive Packs (limit : Nat) : List (List Char) → List (List (List Char)) → Prop
  /-- Without lines there is no sheet. -/
  | nil : Packs limit [] []
  /-- A line goes on the last sheet if there is room for it. -/
  | adds {lines : List (List Char)} {sheets : List (List (List Char))}
      {sheet : List (List Char)} {line : List Char}
      (h : Packs limit lines (sheets ++ [sheet]))
      (hroom : (Text.ofLines sheet).length + 1 + line.length ≤ limit) :
      Packs limit (lines ++ [line]) (sheets ++ [sheet ++ [line]])
  /-- Otherwise a line with something on it begins a sheet. -/
  | begins {lines : List (List Char)} {sheets : List (List (List Char))} {line : List Char}
      (h : Packs limit lines sheets)
      (hroom : ¬ Room limit (sheets.map Text.ofLines) line) (hline : line ≠ []) :
      Packs limit (lines ++ [line]) (sheets ++ [[line]])
  /-- And a blank one is lost. -/
  | loses {lines : List (List Char)} {sheets : List (List (List Char))}
      (h : Packs limit lines sheets)
      (hroom : ¬ Room limit (sheets.map Text.ofLines) []) :
      Packs limit (lines ++ [[]]) sheets

section

variable {limit : Nat} {line : List Char} {lines : List (List Char)}
  {sheet : List (List Char)} {sheets : List (List (List Char))}

/-- Whatever the lines are, there are sheets for them. -/
theorem exists_packs (limit : Nat) (lines : List (List Char)) :
    ∃ sheets, Packs limit lines sheets := by
  induction lines using List.reverseRecOn with
  | nil => exact ⟨[], .nil⟩
  | append_singleton lines line ih =>
      obtain ⟨sheets, h⟩ := ih
      by_cases hroom : Room limit (sheets.map Text.ofLines) line
      · rcases List.eq_nil_or_concat' sheets with rfl | ⟨earlier, sheet, rfl⟩
        · obtain ⟨_, hlast, -⟩ := hroom
          cases hlast
        · rw [List.map_append, List.map_singleton, room_concat] at hroom
          exact ⟨_, h.adds hroom⟩
      · by_cases hline : line = []
        · subst hline
          exact ⟨sheets, h.loses hroom⟩
        · exact ⟨_, h.begins hroom hline⟩

namespace Packs

/-- A sheet begins with a line that has something on it. -/
theorem begun (h : Packs limit lines sheets) :
    ∀ sheet ∈ sheets, ∃ line rest, line ≠ [] ∧ sheet = line :: rest := by
  induction h with
  | nil => simp
  | adds h hroom ih =>
      intro s hs
      rcases List.mem_append.mp hs with hs | hs
      · exact ih s (List.mem_append_left _ hs)
      · obtain ⟨first, rest, hfirst, rfl⟩ := ih _ (List.mem_concat_self ..)
        rw [List.mem_singleton.mp hs]
        exact ⟨first, _, hfirst, List.cons_append⟩
  | begins h hroom hline ih =>
      intro s hs
      rcases List.mem_append.mp hs with hs | hs
      · exact ih s hs
      · rw [List.mem_singleton.mp hs]
        exact ⟨_, [], hline, rfl⟩
  | loses h hroom ih => exact ih

theorem ne_nil (h : Packs limit lines sheets) (hsheet : sheet ∈ sheets) : sheet ≠ [] := by
  obtain ⟨first, rest, -, rfl⟩ := h.begun sheet hsheet
  exact List.cons_ne_nil _ _

/-- **A sheet with more than one line on it is within the limit.** -/
theorem fits (h : Packs limit lines sheets) :
    ∀ sheet ∈ sheets, (Text.ofLines sheet).length ≤ limit ∨ ∃ line, sheet = [line] := by
  induction h with
  | nil => simp
  | @adds lines sheets sheet line h hroom ih =>
      intro s hs
      rcases List.mem_append.mp hs with hs | hs
      · exact ih s (List.mem_append_left _ hs)
      · left
        have hsheet : sheet ≠ [] := h.ne_nil (List.mem_concat_self ..)
        rw [List.mem_singleton.mp hs, Text.length_ofLines_concat hsheet]
        exact hroom
  | @begins lines sheets line h hroom hline ih =>
      intro s hs
      rcases List.mem_append.mp hs with hs | hs
      · exact ih s hs
      · exact .inr ⟨line, List.mem_singleton.mp hs⟩
  | loses h hroom ih => exact ih

/-- **The sheets are what stands on the pages.** -/
theorem pagesOf_eq (h : Packs limit lines sheets) :
    pagesOf limit lines = sheets.map Text.ofLines := by
  induction h with
  | nil => rfl
  | @adds lines sheets sheet line h hroom ih =>
      have hsheet : sheet ≠ [] := h.ne_nil (List.mem_concat_self ..)
      rw [List.map_append, List.map_singleton] at ih ⊢
      rw [Text.ofLines_concat hsheet]
      exact fillPages_concat_of_room ih hroom
  | begins h hroom hline ih =>
      rw [← ih] at hroom
      rw [pagesOf, fillPages_concat_of_not_room hroom, fillPages_start, if_neg hline,
        List.map_append, List.map_singleton, Text.ofLines_singleton, ← ih, pagesOf]
  | loses h hroom ih =>
      rw [← ih] at hroom
      rw [pagesOf, fillPages_concat_of_not_room hroom, fillPages_start, if_pos rfl,
        List.append_nil, ← ih, pagesOf]

/-- The lines with something on them are all there, in order. -/
theorem filter_flatten (h : Packs limit lines sheets) :
    sheets.flatten.filter (· ≠ []) = lines.filter (· ≠ []) := by
  induction h with
  | nil => rfl
  | adds h hroom ih =>
      rw [List.flatten_append, List.flatten_singleton, List.filter_append] at ih
      rw [List.flatten_append, List.flatten_singleton, List.filter_append, List.filter_append,
        ← List.append_assoc, ih, List.filter_append]
  | begins h hroom hline ih =>
      rw [List.flatten_append, List.flatten_singleton, List.filter_append, ih, List.filter_append]
  | loses h hroom ih => simpa [List.filter_append] using ih

/-- Nothing is there that was not a line. -/
theorem flatten_sublist (h : Packs limit lines sheets) : sheets.flatten.Sublist lines := by
  induction h with
  | nil => exact List.Sublist.refl _
  | adds h hroom ih =>
      rw [List.flatten_append, List.flatten_singleton] at ih ⊢
      rw [← List.append_assoc]
      exact ih.append_right _
  | begins h hroom hline ih =>
      rw [List.flatten_append, List.flatten_singleton]
      exact ih.append_right _
  | loses h hroom ih => exact ih.trans (List.sublist_append_left _ _)

end Packs

/-! ### Lines that are lost -/

/-- Whenever a blank line comes there is a page with room for it. -/
def KeepsBlanks (limit : Nat) (lines : List (List Char)) : Prop :=
  ∀ before after, lines = before ++ [] :: after → Room limit (pagesOf limit before) []

theorem keepsBlanks_nil (limit : Nat) : KeepsBlanks limit [] := by
  intro before after h
  simp at h

theorem keepsBlanks_concat :
    KeepsBlanks limit (lines ++ [line]) ↔
      KeepsBlanks limit lines ∧ (line = [] → Room limit (pagesOf limit lines) []) := by
  constructor
  · intro h
    refine ⟨fun before after hlines => h before (after ++ [line]) ?_, ?_⟩
    · rw [hlines, List.append_assoc, List.cons_append]
    · rintro rfl
      exact h lines [] rfl
  · rintro ⟨hlines, hline⟩ before after h
    rcases List.eq_nil_or_concat' after with rfl | ⟨after, last, rfl⟩
    · obtain ⟨rfl, hblank⟩ := List.append_inj' h rfl
      exact hline (List.singleton_inj.mp hblank)
    · rw [← List.cons_append, ← List.append_assoc] at h
      exact hlines before after (List.append_inj' h rfl).1

theorem keepsBlanks_of_not_mem (h : [] ∉ lines) : KeepsBlanks limit lines := by
  rintro before after rfl
  simp at h

/-- **No line is lost if there is a page with room for every blank one**, and only then. -/
theorem Packs.flatten_eq_iff (h : Packs limit lines sheets) :
    sheets.flatten = lines ↔ KeepsBlanks limit lines := by
  induction h with
  | nil => exact iff_of_true rfl (keepsBlanks_nil limit)
  | @adds lines sheets sheet line h hroom ih =>
      have hblank : Room limit (pagesOf limit lines) [] := by
        rw [h.pagesOf_eq, List.map_append, List.map_singleton, room_concat, List.length_nil]
        omega
      rw [List.flatten_append, List.flatten_singleton] at ih ⊢
      rw [← List.append_assoc, List.append_left_inj, ih, keepsBlanks_concat]
      exact (and_iff_left fun _ => hblank).symm
  | begins h hroom hline ih =>
      rw [List.flatten_append, List.flatten_singleton, List.append_left_inj, ih,
        keepsBlanks_concat]
      exact (and_iff_left fun hblank => absurd hblank hline).symm
  | @loses lines sheets h hroom ih =>
      rw [keepsBlanks_concat, h.pagesOf_eq]
      refine iff_of_false (fun heq => ?_) fun hkeeps => hroom (hkeeps.2 rfl)
      have hlength := h.flatten_sublist.length_le
      rw [heq, List.length_append, List.length_singleton] at hlength
      omega

/-- The pages one under another are all the lines one under another just when no blank line is
lost.  One blank line alone cannot be told from no line at all. -/
theorem stacked_pagesOf_iff :
    Text.stacked (pagesOf limit lines) = Text.ofLines lines ↔
      lines = [[]] ∨ KeepsBlanks limit lines := by
  obtain ⟨sheets, h⟩ := exists_packs limit lines
  have hkeeps := h.flatten_eq_iff
  rw [h.pagesOf_eq, Text.stacked_map_ofLines fun _ => h.ne_nil,
    Text.ofLines_eq_iff_of_sublist h.flatten_sublist, hkeeps]
  constructor
  · rintro (hall | ⟨-, hblank⟩)
    · exact .inr hall
    · exact .inl hblank
  · rintro (hblank | hall)
    · by_cases hflat : sheets.flatten = []
      · exact .inr ⟨hflat, hblank⟩
      · refine .inl (hkeeps.mp ?_)
        refine h.flatten_sublist.eq_of_length_le ?_
        rw [hblank]
        exact List.length_pos_iff.mpr hflat
    · exact .inl hall

/-- Where there is no blank line, none is lost. -/
theorem stacked_pagesOf_of_not_mem (h : [] ∉ lines) :
    Text.stacked (pagesOf limit lines) = Text.ofLines lines :=
  stacked_pagesOf_iff.mpr (.inr (keepsBlanks_of_not_mem h))

/-- **A text keeps its lines at every limit only if none is blank**, since the smallest pages
have no room for one. -/
theorem forall_stacked_paginate_iff (text : String) :
    (∀ limit, Text.stacked (paginate text limit) = Text.ofLines (Text.lines text.toList)) ↔
      Text.lines text.toList = [[]] ∨ [] ∉ Text.lines text.toList := by
  constructor
  · intro h
    rcases stacked_pagesOf_iff.mp (h 0) with hblank | hkeeps
    · exact .inl hblank
    · refine .inr fun hmem => ?_
      obtain ⟨before, after, hlines⟩ := List.append_of_mem hmem
      obtain ⟨page, -, hroom⟩ := hkeeps before after hlines
      omega
  · rintro (hblank | hnone) limit
    · exact stacked_pagesOf_iff.mpr (.inl hblank)
    · exact stacked_pagesOf_of_not_mem hnone

/-- **What the pages keep of a text.**  They are made of its lines, of which only blank ones may
be missing.  One under another they are the lines one under another if and only if each blank
line finds a page with room for it, or is all that there is. -/
theorem paginate_lines (text : String) (limit : Nat) :
    (∃ sheets : List (List (List Char)), paginate text limit = sheets.map Text.ofLines ∧
      sheets.flatten.Sublist (Text.lines text.toList) ∧
      sheets.flatten.filter (· ≠ []) = (Text.lines text.toList).filter (· ≠ [])) ∧
    (Text.stacked (paginate text limit) = Text.ofLines (Text.lines text.toList) ↔
      Text.lines text.toList = [[]] ∨ KeepsBlanks limit (Text.lines text.toList)) := by
  refine ⟨?_, stacked_pagesOf_iff⟩
  obtain ⟨sheets, h⟩ := exists_packs limit (Text.lines text.toList)
  exact ⟨sheets, h.pagesOf_eq, h.flatten_sublist, h.filter_flatten⟩

/-- A text that would go on one page loses the blank line that it begins with. -/
theorem paginate_blank_first :
    paginate "\na" 10 = ["a"] ∧
      Text.stacked (paginate "\na" 10) ≠ Text.ofLines (Text.lines "\na".toList) := by
  decide +kernel

end

end Switching
