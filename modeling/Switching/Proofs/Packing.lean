/-
How few pages there are.

Pages are filled one after another, and a line goes on the last page whenever there is room
for it.  So the line that begins a page had no room on the page before.  Blank lines are no
exception: one that is lost found its page full, and what comes after it finds it as full.

Where no line is blank, this way of filling needs no more pages than any other.  The lines so
far may be divided differently, but not into fewer groups; and if the groups are no more than
the pages, then the last page holds at most what the last group holds, since what comes before
it is further on.  Another line that fits on the group then fits on the page as well.
-/
import Mathlib.Data.List.Chain
import Mathlib.Order.Bounds.Defs
import Switching.Proofs.Paging

namespace Switching

/-! ### The line that begins a page -/

namespace Text

variable {line read cs : List Char} {lines others : List (List Char)} {c : Char}

/-- What stands on a page before its first line feed. -/
def firstLine (page : String) : List Char :=
  page.toList.takeWhile (· ≠ '\n')

theorem mem_of_mem_closeLine (h : c ∈ closeLine read) : c ∈ read := by
  unfold closeLine at h
  split at h
  · exact List.mem_cons_of_mem _ (List.mem_reverse.mp h)
  · exact List.mem_reverse.mp h

/-- No line holds what ends lines. -/
theorem feed_not_mem_of_mem_linesAfter (hread : '\n' ∉ read) (h : line ∈ linesAfter read cs) :
    '\n' ∉ line := by
  fun_induction linesAfter read cs with
  | case1 => cases h
  | case2 =>
      rw [List.mem_singleton.mp h]
      exact fun hin => hread (List.mem_reverse.mp hin)
  | case3 read rest ih =>
      rcases List.mem_cons.mp h with rfl | h
      · exact fun hin => hread (mem_of_mem_closeLine hin)
      · exact ih List.not_mem_nil h
  | case4 read c rest hc ih =>
      refine ih (fun hin => ?_) h
      rcases List.mem_cons.mp hin with heq | hin
      · exact hc heq.symm
      · exact hread hin

theorem feed_not_mem_of_mem_lines (h : line ∈ Text.lines cs) : '\n' ∉ line :=
  feed_not_mem_of_mem_linesAfter List.not_mem_nil h

/-- The first of some lines is the first line of the page that they make up. -/
theorem firstLine_ofLines (h : '\n' ∉ line) : firstLine (ofLines (line :: lines)) = line := by
  have hline : ∀ c ∈ line, decide (c ≠ '\n') = true := by
    intro c hc
    rw [decide_eq_true_iff]
    rintro rfl
    exact h hc
  unfold firstLine
  by_cases hlines : lines = []
  · rw [hlines, ofLines_singleton, String.toList_ofList, ← List.append_nil line,
      List.takeWhile_append_of_pos (by simpa using hline), List.takeWhile_nil]
  · have hfeed : "\n".toList = ['\n'] := rfl
    rw [← List.singleton_append, ofLines_append (List.cons_ne_nil _ _) hlines, ofLines_singleton,
      String.toList_append, String.toList_append, String.toList_ofList, hfeed, List.append_assoc,
      List.takeWhile_append_of_pos hline, List.singleton_append, List.takeWhile_cons_of_neg,
      List.append_nil]
    simp

/-- The last of some lines take up no more room than all of them. -/
theorem length_ofLines_le_of_suffix (hlines : lines ≠ []) (h : lines <:+ others) :
    (ofLines lines).length ≤ (ofLines others).length := by
  obtain ⟨front, rfl⟩ := h
  by_cases hfront : front = []
  · rw [hfront, List.nil_append]
  · rw [ofLines_append hfront hlines, String.length_append]
    exact Nat.le_add_left _ _

end Text

section

variable {limit : Nat} {text : String} {line : List Char} {lines : List (List Char)}
  {sheets groups : List (List (List Char))}

/-- The line that begins a page would have made the page before too long. -/
def Overruns (limit : Nat) (page next : String) : Prop :=
  limit < page.length + 1 + (Text.firstLine next).length

/-- The line that begins a sheet found no room on the sheet before. -/
theorem Packs.isChain (h : Packs limit lines sheets) :
    sheets.IsChain fun sheet next => ∀ line ∈ next.head?,
      limit < (Text.ofLines sheet).length + 1 + line.length := by
  induction h with
  | nil => exact .nil
  | @adds lines sheets sheet line h hroom ih =>
      obtain ⟨hsheets, -, hlast⟩ := List.isChain_append.mp ih
      refine List.isChain_append.mpr ⟨hsheets, .singleton _, ?_⟩
      -- another line at the end of a sheet does not change what it begins with
      intro before hbefore next hnext first hfirst
      cases hnext
      rw [List.head?_append_of_ne_nil _ (h.ne_nil (List.mem_concat_self ..))] at hfirst
      exact hlast before hbefore sheet rfl first hfirst
  | begins h hroom hline ih =>
      refine List.isChain_append.mpr ⟨ih, .singleton _, ?_⟩
      intro before hbefore next hnext first hfirst
      cases hnext
      cases hfirst
      refine Nat.lt_of_not_le fun hfits => hroom ⟨Text.ofLines before, ?_, hfits⟩
      rw [List.getLast?_map, Option.mem_def.mp hbefore, Option.map_some]
  | loses h hroom ih => exact ih

/-- **Every page is as full as it can be**: the line that begins the next page had no room. -/
theorem overruns_paginate (text : String) (limit : Nat) :
    (paginate text limit).IsChain (Overruns limit) := by
  obtain ⟨sheets, h⟩ := exists_packs limit (Text.lines text.toList)
  have hpages : paginate text limit = sheets.map Text.ofLines := h.pagesOf_eq
  rw [hpages, List.isChain_map]
  refine h.isChain.imp_of_mem_imp ?_
  intro sheet next _ hnext hover
  obtain ⟨line, rest, -, rfl⟩ := h.begun next hnext
  have hin : line ∈ Text.lines text.toList :=
    h.flatten_sublist.subset (List.mem_flatten.mpr ⟨_, hnext, List.mem_cons_self ..⟩)
  rw [Overruns, Text.firstLine_ofLines (Text.feed_not_mem_of_mem_lines hin)]
  exact hover line rfl

/-! ### Other ways to divide the lines -/

/-- The lines, in order, in groups each of which can be a page. -/
structure Splits (limit : Nat) (lines : List (List Char)) (groups : List (List (List Char))) :
    Prop where
  /-- The groups are made of the lines. -/
  flatten_eq : groups.flatten = lines
  /-- There is a line in every group. -/
  ne_nil : ∀ group ∈ groups, group ≠ []
  /-- A group is within the limit, or it is a line. -/
  fits : ∀ group ∈ groups, (Text.ofLines group).length ≤ limit ∨ ∃ line, group = [line]

theorem Splits.of_concat {last : List (List Char)} (h : Splits limit lines (groups ++ [last])) :
    Splits limit groups.flatten groups :=
  ⟨rfl, fun group hgroup => h.ne_nil group (List.mem_append_left _ hgroup),
    fun group hgroup => h.fits group (List.mem_append_left _ hgroup)⟩

/-- The last line is a group of its own, or it is in a group with others that has room for
it. -/
theorem Splits.cases_concat (h : Splits limit (lines ++ [line]) groups) :
    (∃ earlier, groups = earlier ++ [[line]] ∧ Splits limit lines earlier) ∨
      ∃ earlier group, groups = earlier ++ [group ++ [line]] ∧
        Splits limit lines (earlier ++ [group]) ∧
        (Text.ofLines group).length + 1 + line.length ≤ limit := by
  rcases List.eq_nil_or_concat' groups with rfl | ⟨earlier, last, rfl⟩
  · have hnone := h.flatten_eq
    simp at hnone
  rcases List.eq_nil_or_concat' last with rfl | ⟨group, last, rfl⟩
  · exact absurd rfl (h.ne_nil [] (List.mem_concat_self ..))
  have hlines := h.flatten_eq
  rw [List.flatten_append, List.flatten_singleton, ← List.append_assoc] at hlines
  obtain ⟨rfl, hlast⟩ := List.append_inj' hlines rfl
  cases hlast
  by_cases hgroup : group = []
  · subst hgroup
    rw [List.append_nil]
    exact .inl ⟨earlier, rfl, h.of_concat⟩
  · have hroom : (Text.ofLines group).length + 1 + line.length ≤ limit := by
      rcases h.fits _ (List.mem_concat_self ..) with hfits | ⟨_, hsingle⟩
      · rwa [Text.length_ofLines_concat hgroup] at hfits
      · exact absurd (List.append_eq_singleton_iff.mp hsingle) (by simp [hgroup])
    refine .inr ⟨earlier, group, rfl, ⟨?_, ?_, ?_⟩, hroom⟩
    · rw [List.flatten_append, List.flatten_singleton]
    · intro g hg
      rcases List.mem_append.mp hg with hg | hg
      · exact h.ne_nil g (List.mem_append_left _ hg)
      · rwa [List.mem_singleton.mp hg]
    · intro g hg
      rcases List.mem_append.mp hg with hg | hg
      · exact h.fits g (List.mem_append_left _ hg)
      · rw [List.mem_singleton.mp hg]
        exact .inl (by omega)

/-- There are no more sheets than groups, and if there are as many then what is on the last
sheet is at the end of the last group. -/
structure Behind (sheets groups : List (List (List Char))) : Prop where
  /-- There are no more sheets than groups. -/
  length_le : sheets.length ≤ groups.length
  /-- The last sheet does not hold more than the last group. -/
  suffix : sheets.length = groups.length →
    ∀ sheet ∈ sheets.getLast?, ∀ group ∈ groups.getLast?, sheet <:+ group

theorem behind_concat {sheet group : List (List Char)} :
    Behind (sheets ++ [sheet]) (groups ++ [group]) ↔
      sheets.length ≤ groups.length ∧ (sheets.length = groups.length → sheet <:+ group) := by
  constructor
  · rintro ⟨hle, hsuffix⟩
    simp only [List.length_append, List.length_singleton, Nat.add_le_add_iff_right] at hle
    exact ⟨hle, fun heq => hsuffix (by simp [heq]) sheet (by simp) group (by simp)⟩
  · rintro ⟨hle, hsuffix⟩
    refine ⟨by simpa using hle, fun heq => ?_⟩
    simpa using hsuffix (by simpa using heq)

/-- **No way to divide the lines gets further with the same number of groups.** -/
theorem Packs.behind (h : Packs limit lines sheets) (hblank : [] ∉ lines)
    (hsplits : Splits limit lines groups) : Behind sheets groups := by
  induction h generalizing groups with
  | nil =>
      have hnone : groups = [] := by
        refine List.eq_nil_iff_forall_not_mem.mpr fun group hgroup => ?_
        have hempty := List.flatten_eq_nil_iff.mp hsplits.flatten_eq
        exact hsplits.ne_nil group hgroup (hempty group hgroup)
      rw [hnone]
      exact ⟨Nat.le_refl _, fun _ _ hsheet => nomatch hsheet⟩
  | @adds lines sheets sheet line h hroom ih =>
      have hearlier : [] ∉ lines := fun hin => hblank (List.mem_append_left _ hin)
      rcases hsplits.cases_concat with ⟨earlier, rfl, hbefore⟩ | ⟨earlier, group, rfl, hbefore, -⟩
      · have hle := (ih hearlier hbefore).length_le
        rw [List.length_append, List.length_singleton] at hle
        exact behind_concat.mpr ⟨by omega, by omega⟩
      · obtain ⟨hle, hsuffix⟩ := behind_concat.mp (ih hearlier hbefore)
        refine behind_concat.mpr ⟨hle, fun heq => ?_⟩
        obtain ⟨front, hfront⟩ := hsuffix heq
        exact ⟨front, by rw [← List.append_assoc, hfront]⟩
  | @begins lines sheets line h hroom hline ih =>
      have hearlier : [] ∉ lines := fun hin => hblank (List.mem_append_left _ hin)
      rcases hsplits.cases_concat with
        ⟨earlier, rfl, hbefore⟩ | ⟨earlier, group, rfl, hbefore, hfits⟩
      · exact behind_concat.mpr ⟨(ih hearlier hbefore).length_le, fun _ => List.suffix_refl _⟩
      · refine behind_concat.mpr ⟨?_, fun _ => List.suffix_append _ _⟩
        rcases List.eq_nil_or_concat' sheets with rfl | ⟨sheets, sheet, rfl⟩
        · exact Nat.zero_le _
        obtain ⟨hle, hsuffix⟩ := behind_concat.mp (ih hearlier hbefore)
        rcases Nat.lt_or_eq_of_le hle with hlt | heq
        · rwa [List.length_append, List.length_singleton]
        · -- a line that fits on the group would have fitted on the sheet
          have hshort := Text.length_ofLines_le_of_suffix
            (h.ne_nil (List.mem_concat_self ..)) (hsuffix heq)
          rw [List.map_append, List.map_singleton, room_concat] at hroom
          exact absurd (by omega) hroom
  | loses => exact absurd (List.mem_concat_self ..) hblank

/-- Where no line is blank the sheets are one way to divide the lines. -/
theorem Packs.splits (h : Packs limit lines sheets) (hblank : [] ∉ lines) :
    Splits limit lines sheets where
  flatten_eq := h.flatten_eq_iff.mpr (keepsBlanks_of_not_mem hblank)
  ne_nil _ := h.ne_nil
  fits := h.fits

/-- **Pages are full, and therefore few.**  A page is within the limit or is one of the lines,
and the line that begins the next page had no room on it.  Where no line is blank there is no
way to divide the lines into fewer groups, each of them within the limit or a single line. -/
theorem paginate_greedy (text : String) (limit : Nat) :
    (∀ page ∈ paginate text limit, FitsPage limit (Text.lines text.toList) page) ∧
    (paginate text limit).IsChain (Overruns limit) ∧
    ([] ∉ Text.lines text.toList →
      IsLeast {n | ∃ groups, Splits limit (Text.lines text.toList) groups ∧ groups.length = n}
        (paginate text limit).length) := by
  refine ⟨fun _ => fits_of_mem_paginate, overruns_paginate text limit, fun hblank => ?_⟩
  obtain ⟨sheets, h⟩ := exists_packs limit (Text.lines text.toList)
  have hpages : paginate text limit = sheets.map Text.ofLines := h.pagesOf_eq
  rw [hpages, List.length_map]
  constructor
  · exact ⟨sheets, h.splits hblank, rfl⟩
  · rintro n ⟨groups, hsplits, rfl⟩
    exact (h.behind hblank hsplits).length_le

/-- Three short lines and a long one need three pages of nine characters: the long line is a
page by itself, and there is no room for the last line beside the first two. -/
theorem paginate_greedy_long :
    paginate "aaaa\nbbbb\nmuch too long\ncc" 9 = ["aaaa\nbbbb", "much too long", "cc"] ∧
    IsLeast {n | ∃ groups,
      Splits 9 (Text.lines "aaaa\nbbbb\nmuch too long\ncc".toList) groups ∧
        groups.length = n} 3 := by
  have hpages : paginate "aaaa\nbbbb\nmuch too long\ncc" 9 =
      ["aaaa\nbbbb", "much too long", "cc"] := by decide +kernel
  have hleast := (paginate_greedy "aaaa\nbbbb\nmuch too long\ncc" 9).2.2 (by decide +kernel)
  rw [hpages] at hleast
  exact ⟨hpages, hleast⟩

end

end Switching
