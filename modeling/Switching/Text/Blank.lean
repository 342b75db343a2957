/-
Blanks and what they separate.

A blank is a character with the Unicode property White_Space.  Expressions ignore
blanks wherever they stand, a command line is cut at them, and a line of nothing
else counts as empty.  Text is handled here as `List Char`, so that each function is
one recursion over the characters; the callers keep their own text as `String`.
-/

namespace Switching.Text

/-- The character has the Unicode property White_Space. -/
def isBlank (c : Char) : Bool :=
  let n := c.toNat
  (0x09 ≤ n && n ≤ 0x0D) || n == 0x20 || n == 0x85 || n == 0xA0 || n == 0x1680 ||
    (0x2000 ≤ n && n ≤ 0x200A) || n == 0x2028 || n == 0x2029 || n == 0x202F ||
    n == 0x205F || n == 0x3000

/-- The text without any of its blanks. -/
def strip (text : List Char) : List Char :=
  text.filter (!isBlank ·)

theorem not_blank_of_mem_strip {c : Char} {text : List Char} (h : c ∈ strip text) :
    isBlank c = false := by
  simpa using (List.mem_filter.mp h).2

/-- Where there are no blanks, none are left out. -/
theorem strip_eq_self {text : List Char} (h : ∀ c ∈ text, isBlank c = false) :
    strip text = text := by
  refine List.filter_eq_self.mpr fun c hc => ?_
  rw [h c hc, Bool.not_false]

/-! ### Trimming -/

/-- The text from its first character that is no blank. -/
def trimStart (text : List Char) : List Char :=
  text.dropWhile isBlank

/-- The text up to its last character that is no blank. -/
def trimEnd (text : List Char) : List Char :=
  (text.reverse.dropWhile isBlank).reverse

theorem mem_of_mem_trimEnd {c : Char} {text : List Char} (h : c ∈ trimEnd text) : c ∈ text := by
  rw [trimEnd, List.mem_reverse] at h
  exact List.mem_reverse.mp ((List.dropWhile_sublist _).mem h)

/-- The text without the blanks at its two ends. -/
def trim (text : List Char) : List Char :=
  trimEnd (trimStart text)

/-! ### Cutting -/

/-- Cuts the text at its first blank, which is in neither part; `none` without a blank. -/
def cut (text : List Char) : Option (List Char × List Char) :=
  match text.dropWhile (!isBlank ·) with
  | [] => none
  | _ :: rest => some (text.takeWhile (!isBlank ·), rest)

/-- The words of a text of which `word`, last character first, has been read already. -/
def wordsAfter : List Char → List Char → List (List Char)
  | [], [] => []
  | word, [] => [word.reverse]
  | word, c :: rest =>
    if isBlank c then
      match word with
      | [] => wordsAfter [] rest
      | word => word.reverse :: wordsAfter [] rest
    else wordsAfter (c :: word) rest

/-- A character that is no blank goes on with the word. -/
theorem wordsAfter_cons {c : Char} (h : isBlank c = false) (word rest : List Char) :
    wordsAfter word (c :: rest) = wordsAfter (c :: word) rest := by
  have hstep : wordsAfter word (c :: rest) =
      if isBlank c then
        match word with
        | [] => wordsAfter [] rest
        | word => word.reverse :: wordsAfter [] rest
      else wordsAfter (c :: word) rest := by
    cases word <;> rfl
  rw [hstep, h]
  rfl

/-- A word is complete where the text ends. -/
theorem wordsAfter_nil {word : List Char} (h : word ≠ []) :
    wordsAfter word [] = [word.reverse] := by
  cases word with
  | nil => exact absurd rfl h
  | cons c word => rfl

/-- A word is complete where a space comes. -/
theorem wordsAfter_space {word : List Char} (h : word ≠ []) (rest : List Char) :
    wordsAfter word (' ' :: rest) = word.reverse :: wordsAfter [] rest := by
  cases word with
  | nil => exact absurd rfl h
  | cons c word => rfl

/-- The words of a text: its longest runs of characters that are no blanks, in order. -/
def words (text : List Char) : List (List Char) :=
  wordsAfter [] text

end Switching.Text
