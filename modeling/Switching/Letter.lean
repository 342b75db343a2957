/-
Letters.

Variables and functions draw their names from one alphabet, the 52 letters of ASCII.
Which of the two a letter names is decided by where it stands and never by the letter
itself.  The alphabet has an order, that of the character codes, in which every
capital comes before every small letter; `Letter.all` lists it, and everything that is
shown "in ascending order" follows that list.
-/

namespace Switching

/-- A letter of the ASCII alphabet, capital or small. -/
structure Letter where
  /-- The letter as a character. -/
  char : Char
  /-- It is one of the 52. -/
  isAlpha : char.isAlpha = true
deriving DecidableEq

namespace Letter

/-- A letter is known from its character. -/
theorem char_inj {l l' : Letter} (h : l.char = l'.char) : l = l' := by
  cases l
  cases l'
  cases h
  rfl

/-- The letter that a character is, if it is one. -/
def ofChar? (c : Char) : Option Letter :=
  if h : c.isAlpha = true then some ⟨c, h⟩ else none

@[simp] theorem ofChar?_char (l : Letter) : ofChar? l.char = some l := by
  simp [ofChar?, l.isAlpha]

theorem ofChar?_eq_some_iff {c : Char} {l : Letter} : ofChar? c = some l ↔ l.char = c := by
  constructor
  · intro h
    unfold ofChar? at h
    split at h
    · cases h; rfl
    · cases h
  · rintro rfl
    exact ofChar?_char l

theorem ofChar?_eq_none_iff {c : Char} : ofChar? c = none ↔ c.isAlpha = false := by
  unfold ofChar?
  split <;> simp_all

/-- The letter as a text of one character. -/
def toText (l : Letter) : String :=
  l.char.toString

/-- Letters one after another with `separator` between neighbours. -/
def join (separator : String) (letters : List Letter) : String :=
  separator.intercalate (letters.map toText)

/-- The alphabet in ascending order. -/
def all : List Letter :=
  "ABCDEFGHIJKLMNOPQRSTUVWXYZabcdefghijklmnopqrstuvwxyz".toList.filterMap ofChar?

/-- The codes of the capitals and of the small letters. -/
theorem code_of_isAlpha {c : Char} (h : c.isAlpha = true) :
    (65 ≤ c.toNat ∧ c.toNat ≤ 90) ∨ (97 ≤ c.toNat ∧ c.toNat ≤ 122) := by
  have h : (c.isUpper || c.isLower) = true := h
  rcases Bool.or_eq_true_iff.1 h with upper | lower
  · have h : 'A'.val ≤ c.val ∧ c.val ≤ 'Z'.val := of_decide_eq_true upper
    simp only [UInt32.le_iff_toNat_le] at h
    exact .inl h
  · have h : (decide (c.val ≥ 'a'.val) && decide (c.val ≤ 'z'.val)) = true := lower
    simp only [Bool.and_eq_true, decide_eq_true_eq, ge_iff_le, UInt32.le_iff_toNat_le] at h
    exact .inr h

/-- Every letter stands in the alphabet. -/
theorem mem_all (l : Letter) : l ∈ all := by
  refine List.mem_filterMap.2 ⟨l.char, ?_, ofChar?_char l⟩
  have listed : ∀ n, n < 128 → (65 ≤ n ∧ n ≤ 90) ∨ (97 ≤ n ∧ n ≤ 122) →
      Char.ofNat n ∈ "ABCDEFGHIJKLMNOPQRSTUVWXYZabcdefghijklmnopqrstuvwxyz".toList := by
    decide +kernel
  have code := code_of_isAlpha l.isAlpha
  have := listed l.char.toNat (by omega) code
  rwa [Char.ofNat_toNat] at this

/-- The alphabet goes by the character codes. -/
theorem all_ascending : all.Pairwise fun k l => k.char.toNat < l.char.toNat := by
  decide +kernel

/-- Sorts letters in the order of the alphabet, keeping repetitions. -/
def sort (letters : List Letter) : List Letter :=
  letters.mergeSort fun a b => a.char.toNat ≤ b.char.toNat

end Letter

end Switching
