/-
How much a page holds.

A page breaks only between lines, and it takes another line only if that keeps it within the
limit.  So a page is within the limit, or it is one line that is too long by itself; and no
page is sent before something stands on it.  Both hold of every text and every limit, be it
zero, and both are read off the sheets that the lines are put on.

With what is known of replies, that none has an empty line, nothing is left to be said about
them: a reply is sent in one page or more, none of which is empty, and read one under another
they are the reply.
-/
import Switching.Proofs.Replies

namespace Switching

/-! ### Pages of any text -/

section

variable {limit : Nat} {text page : String}

/-- The page is within the limit, or it is one of the lines. -/
def FitsPage (limit : Nat) (lines : List (List Char)) (page : String) : Prop :=
  page.length ≤ limit ∨ page.toList ∈ lines

/-- Every page is some sheet of the text. -/
theorem exists_sheet_of_mem_paginate (h : page ∈ paginate text limit) :
    ∃ sheets, Packs limit (Text.lines text.toList) sheets ∧
      ∃ sheet ∈ sheets, Text.ofLines sheet = page := by
  obtain ⟨sheets, hpacks⟩ := exists_packs limit (Text.lines text.toList)
  refine ⟨sheets, hpacks, ?_⟩
  have hpages : paginate text limit = sheets.map Text.ofLines := hpacks.pagesOf_eq
  rw [hpages] at h
  exact List.mem_map.mp h

/-- **No page is overfull.** -/
theorem fits_of_mem_paginate (h : page ∈ paginate text limit) :
    FitsPage limit (Text.lines text.toList) page := by
  obtain ⟨sheets, hpacks, sheet, hsheet, rfl⟩ := exists_sheet_of_mem_paginate h
  rcases hpacks.fits sheet hsheet with hfits | ⟨line, rfl⟩
  · exact .inl hfits
  · right
    rw [Text.ofLines_singleton, String.toList_ofList]
    refine hpacks.flatten_sublist.subset ?_
    exact List.mem_flatten.mpr ⟨[line], hsheet, List.mem_singleton.mpr rfl⟩

/-- **No page is empty.** -/
theorem ne_empty_of_mem_paginate (h : page ∈ paginate text limit) : page ≠ "" := by
  obtain ⟨sheets, hpacks, sheet, hsheet, rfl⟩ := exists_sheet_of_mem_paginate h
  obtain ⟨line, rest, hline, rfl⟩ := hpacks.begun sheet hsheet
  intro hempty
  rcases Text.ofLines_eq_empty_iff.mp hempty with hnone | hblank
  · cases hnone
  · cases hblank
    exact hline rfl

end

/-! ### Replies -/

/-- The pages make up the text, and each of them is worth sending. -/
structure Paged (limit : Nat) (text : String) (pages : List String) : Prop where
  /-- There is a page. -/
  ne_nil : pages ≠ []
  /-- There is something on every page. -/
  ne_empty : ∀ page ∈ pages, page ≠ ""
  /-- One under another they are the text. -/
  stacked_eq : Text.stacked pages = text
  /-- Each is within the limit, or is one line of the text. -/
  fits : ∀ page ∈ pages, FitsPage limit (Text.lines text.toList) page

theorem Text.Lined.ne_empty {text : String} (h : Text.Lined text) : text ≠ "" := by
  obtain ⟨lines, hne, hwhole, rfl⟩ := h
  obtain ⟨first, lines, rfl⟩ := List.exists_cons_of_ne_nil hne
  intro hempty
  have hread := Text.lines_stacked hwhole
  rw [hempty] at hread
  cases hread

/-- **A text in lines is sent as it should be**, whatever the limit. -/
theorem Text.Lined.paged {text : String} (h : Text.Lined text) (limit : Nat) :
    Paged limit text (paginate text limit) where
  ne_nil := by
    intro hnil
    have hjoined := h.stacked_paginate limit
    rw [hnil] at hjoined
    exact h.ne_empty hjoined.symm
  ne_empty := fun _ => ne_empty_of_mem_paginate
  stacked_eq := h.stacked_paginate limit
  fits := fun _ => fits_of_mem_paginate

namespace Session

variable {s next : Session} {command : Command} {text : String} {pages : List String}

/-- A command that shows a text sends it as it should be sent. -/
theorem execute_of_shows (hr : s.registry.Compiled)
    (htext : s.shown? command = some (.ok text)) :
    (s.execute command).outcome = .ok (s, s.pages text) ∧
      Paged s.config.messageLimit text (s.pages text) := by
  constructor
  · rw [execute_of_shown? htext]
    rfl
  · exact (lined_of_shown? hr htext).paged _

/-- What is sent by a command that is to change nothing is what it is to show. -/
theorem sent_of_execute (hs : s.Reachable) (hread : command.change? = none)
    (hout : (s.execute command).outcome = .ok (next, pages)) :
    next = s ∧ ∃ text, s.shown? command = some (.ok text) ∧
      Paged s.config.messageLimit text pages := by
  obtain ⟨out, hshown⟩ := s.exists_shown? hread
  cases out with
  | error e =>
      rw [execute_of_shown? hshown] at hout
      cases hout
  | ok text =>
      obtain ⟨hsent, hpaged⟩ := execute_of_shows hs.compiled hshown
      rw [hsent] at hout
      cases hout
      exact ⟨rfl, text, hshown, hpaged⟩

/-- **What a command shows is what it sends.**  A command that is to change nothing and
succeeds leaves the session as it is and sends the text that it is to show, in one page or
more; none of them is empty, and none is longer than the limit unless it is a single line of
the text.  It does succeed if there is a text for it to show. -/
theorem execute_paged (hs : s.Reachable) (hread : command.change? = none) :
    (∀ next pages, (s.execute command).outcome = .ok (next, pages) →
      next = s ∧ ∃ text, s.shown? command = some (.ok text) ∧
        Paged s.config.messageLimit text pages) ∧
    ∀ text, s.shown? command = some (.ok text) →
      ∃ pages, (s.execute command).outcome = .ok (s, pages) := by
  constructor
  · intro next pages hout
    exact sent_of_execute hs hread hout
  · intro text htext
    exact ⟨_, (execute_of_shows hs.compiled htext).1⟩

/-- A session with one function, whose pages have no room at all. -/
def cramped : Session :=
  (new { messageLimit := 0 }).run [.define 'f' " a "]

/-- Each line of the listing is a page where there is no room. -/
theorem execute_paged_cramped : cramped.Reachable ∧
    (cramped.execute (.view .all false)).outcome =
      .ok (cramped, ["Displaying all functions", "f -> a"]) ∧
    Paged 0 "Displaying all functions\nf -> a" ["Displaying all functions", "f -> a"] := by
  have hreach : cramped.Reachable := ⟨_, _, rfl⟩
  have hshown : cramped.shown? (.view .all false) =
      some (.ok "Displaying all functions\nf -> a") := rfl
  have hpages : cramped.pages "Displaying all functions\nf -> a" =
      ["Displaying all functions", "f -> a"] := rfl
  have hout : (cramped.execute (.view .all false)).outcome =
      .ok (cramped, ["Displaying all functions", "f -> a"]) := by
    rw [execute_of_shown? hshown, Except.map, hpages]
  obtain ⟨-, text, htext, hpaged⟩ := (execute_paged hreach rfl).1 _ _ hout
  rw [hshown, Option.some.injEq, Except.ok.injEq] at htext
  subst htext
  exact ⟨hreach, hout, hpaged⟩

end Session

end Switching
