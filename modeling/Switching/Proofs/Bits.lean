/-
Words of digits, and the reflected code.

Both are taken apart at the last digit.  What is in front of it is the word, or the code
word, of half the number, so everything about them is an induction in which a number is
halved: a word of given length is the word of exactly one number, words come in the order
of their numbers, the code runs through the numbers below a power of two without repetition,
and one step on in the code changes one digit, either the last one or, by induction, one in
front of it.  The last code word of a given length is a power of two, one digit away from the
first, so the code words of that length make a circle.  No code word is longer than the number
it is the code of, so in a machine word it is the same.
-/
import Mathlib.Data.List.Induction
import Mathlib.Data.Nat.Bitwise
import Mathlib.Data.Set.Function
import Mathlib.Order.Interval.Set.Defs
import Switching.Bits

namespace Switching

/-! ### Words -/

section

variable {width n m : Nat}

@[simp] theorem length_bits (width n : Nat) : (bits width n).length = width := by
  simp [bits]

theorem getElem_bits {k : Nat} (h : k < (bits width n).length) :
    (bits width n)[k] = n.testBit (width - 1 - k) := by
  simp [bits]

/-- The last digit of a word, and the word in front of it. -/
theorem bits_succ (width n : Nat) : bits (width + 1) n = bits width (n / 2) ++ [n.testBit 0] := by
  have hfront : ∀ k ∈ List.range width,
      n.testBit (width - k) = (n / 2).testBit (width - 1 - k) := by
    intro k hk
    rw [← Nat.testBit_add_one]
    congr 1
    have := List.mem_range.mp hk
    omega
  simp [bits, List.range_succ, List.map_congr_left hfront]

/-- A number below the power is known from its word. -/
theorem bits_inj (hn : n < 2 ^ width) (hm : m < 2 ^ width) (h : bits width n = bits width m) :
    n = m := by
  induction width generalizing n m with
  | zero => omega
  | succ width ih =>
      rw [bits_succ, bits_succ] at h
      obtain ⟨hfront, hlast⟩ := List.append_inj' h rfl
      rw [Nat.pow_succ] at hn hm
      have hhalf := ih (by omega) (by omega) hfront
      simp only [List.cons.injEq, and_true, Nat.testBit_zero, decide_eq_decide] at hlast
      omega

/-- Every word is that of a number. -/
theorem exists_bits (word : List Bool) :
    ∃ n < 2 ^ word.length, bits word.length n = word := by
  induction word using List.reverseRecOn with
  | nil => exact ⟨0, by simp, rfl⟩
  | append_singleton word b ih =>
      obtain ⟨n, hn, hword⟩ := ih
      have hb := Bool.toNat_lt b
      have hhalf : (2 * n + b.toNat) / 2 = n := by omega
      refine ⟨2 * n + b.toNat, ?_, ?_⟩
      · rw [List.length_append, List.length_singleton, pow_succ]
        omega
      · rw [List.length_append, List.length_singleton, bits_succ, hhalf, hword, Nat.testBit_zero]
        cases b <;> simp

end

/-! ### Words in order -/

/-- The word comes before the other: where they first differ it has `false` and the other has
`true`. -/
def Precedes : List Bool → List Bool → Prop :=
  List.Lex fun b c => b = false ∧ c = true

section

variable {width n m : Nat} {xs ys : List Bool}

theorem Precedes.append (h : Precedes xs ys) (hlen : xs.length = ys.length) (us vs : List Bool) :
    Precedes (xs ++ us) (ys ++ vs) := by
  induction h with
  | nil => cases hlen
  | rel hdigit => exact .rel hdigit
  | cons _ ih => exact .cons (ih (Nat.succ.inj hlen))

theorem Precedes.append_left (h : Precedes xs ys) (front : List Bool) :
    Precedes (front ++ xs) (front ++ ys) := by
  induction front with
  | nil => exact h
  | cons b front ih => exact .cons ih

/-- **Words come in the order of their numbers.** -/
theorem bits_precedes (h : n < m) (hm : m < 2 ^ width) :
    Precedes (bits width n) (bits width m) := by
  induction width generalizing n m with
  | zero => omega
  | succ width ih =>
      rw [pow_succ] at hm
      rw [bits_succ, bits_succ]
      by_cases hhalf : n / 2 = m / 2
      · -- the words differ in the last digit only
        have hn : n.testBit 0 = false := by
          rw [Nat.testBit_zero, decide_eq_false_iff_not]
          omega
        have hm : m.testBit 0 = true := by
          rw [Nat.testBit_zero, decide_eq_true_eq]
          omega
        rw [hhalf, hn, hm]
        exact Precedes.append_left (.rel ⟨rfl, rfl⟩) _
      · have hfront : Precedes (bits width (n / 2)) (bits width (m / 2)) :=
          ih (by omega) (by omega)
        exact hfront.append (by rw [length_bits, length_bits]) _ _

end

/-! ### Numbers that differ in one digit -/

/-- The two numbers differ in exactly one binary digit. -/
def OneApart (x y : Nat) : Prop :=
  ∃ j, ∀ i, x.testBit i ≠ y.testBit i ↔ i = j

/-- The two words differ at exactly one place. -/
def DifferInOne (xs ys : List Bool) : Prop :=
  ∃ k : Nat, ∀ i : Nat, xs[i]? ≠ ys[i]? ↔ i = k

namespace OneApart

variable {x y b c width : Nat}

theorem symm (h : OneApart x y) : OneApart y x := by
  obtain ⟨j, hj⟩ := h
  exact ⟨j, fun i => ne_comm.trans (hj i)⟩

theorem of_digits (hb : b < 2) (hc : c < 2) (hne : b ≠ c) : OneApart b c := by
  refine ⟨0, ?_⟩
  intro i
  cases i with
  | zero =>
      rw [Nat.testBit_zero, Nat.testBit_zero, ne_eq, decide_eq_decide]
      omega
  | succ i => simp [Nat.testBit_add_one, Nat.div_eq_of_lt hb, Nat.div_eq_of_lt hc]

/-- Numbers with the same front are apart as what stands behind it. -/
theorem low (h : OneApart b c) (hb : b < 2 ^ width) (hc : c < 2 ^ width) (x : Nat) :
    OneApart (2 ^ width * x + b) (2 ^ width * x + c) := by
  obtain ⟨j, hj⟩ := h
  refine ⟨j, ?_⟩
  intro i
  rw [Nat.testBit_two_pow_mul_add x hb, Nat.testBit_two_pow_mul_add x hc, ← hj i]
  split
  · exact Iff.rfl
  · have hpow : 2 ^ width ≤ 2 ^ i := Nat.pow_le_pow_right (by decide) (by omega)
    rw [Nat.testBit_lt_two_pow (Nat.lt_of_lt_of_le hb hpow),
      Nat.testBit_lt_two_pow (Nat.lt_of_lt_of_le hc hpow)]
    simp

/-- Numbers with the same end are apart as what stands in front of it. -/
theorem high (h : OneApart x y) (hb : b < 2 ^ width) :
    OneApart (2 ^ width * x + b) (2 ^ width * y + b) := by
  obtain ⟨j, hj⟩ := h
  refine ⟨j + width, ?_⟩
  intro i
  rw [Nat.testBit_two_pow_mul_add x hb, Nat.testBit_two_pow_mul_add y hb]
  split
  · constructor
    · exact fun hne => absurd rfl hne
    · omega
  · rw [hj]
    omega

/-- The words of the numbers differ where their digits do. -/
theorem differInOne (h : OneApart x y) (hx : x < 2 ^ width) (hy : y < 2 ^ width) :
    DifferInOne (bits width x) (bits width y) := by
  obtain ⟨j, hj⟩ := h
  have hjw : j < width := by
    by_contra hle
    have hpow : 2 ^ width ≤ 2 ^ j := Nat.pow_le_pow_right (by decide) (by omega)
    refine (hj j).mpr rfl ?_
    rw [Nat.testBit_lt_two_pow (Nat.lt_of_lt_of_le hx hpow),
      Nat.testBit_lt_two_pow (Nat.lt_of_lt_of_le hy hpow)]
  refine ⟨width - 1 - j, ?_⟩
  intro i
  by_cases hi : i < width
  · rw [List.getElem?_eq_getElem (by simpa using hi), List.getElem?_eq_getElem (by simpa using hi),
      getElem_bits, getElem_bits, ne_eq, Option.some.injEq, ← ne_eq, hj]
    omega
  · rw [List.getElem?_eq_none (by simpa using hi), List.getElem?_eq_none (by simpa using hi)]
    constructor
    · exact fun hne => absurd rfl hne
    · omega

end OneApart

/-! ### The reflected code -/

section

variable {width i j n : Nat}

/-- The last digit of a code word, and the code word in front of it. -/
theorem gray_two_mul_add (k : Nat) {b : Nat} (hb : b < 2) :
    gray (2 * k + b) = 2 * gray k + (k + b) % 2 := by
  have hhalf : (2 * k + b) / 2 = k := by omega
  have hdigit : (2 * gray k + (k + b) % 2) / 2 = gray k := by omega
  refine Nat.eq_of_testBit_eq fun i => ?_
  rw [gray, Nat.shiftRight_one, hhalf, Nat.testBit_xor]
  cases i with
  | zero =>
      rw [Nat.testBit_zero, Nat.testBit_zero, Nat.testBit_zero, Bool.eq_iff_iff]
      simp only [bne_iff_ne, ne_eq, decide_eq_decide, decide_eq_true_eq]
      omega
  | succ i =>
      rw [Nat.testBit_add_one, Nat.testBit_add_one, Nat.testBit_add_one, hhalf, hdigit, gray,
        Nat.testBit_xor, Nat.shiftRight_one]

theorem gray_eq (i : Nat) : gray i = 2 * gray (i / 2) + (i / 2 + i % 2) % 2 := by
  rw [← gray_two_mul_add _ (Nat.mod_lt i (by decide)), Nat.div_add_mod]

theorem gray_lt (h : i < 2 ^ width) : gray i < 2 ^ width :=
  Nat.xor_lt_two_pow h (Nat.lt_of_le_of_lt (Nat.shiftRight_le i 1) h)

/-- No code word stands at two places. -/
theorem gray_inj (hi : i < 2 ^ width) (hj : j < 2 ^ width) (h : gray i = gray j) : i = j := by
  induction width generalizing i j with
  | zero => omega
  | succ width ih =>
      rw [gray_eq i, gray_eq j] at h
      rw [pow_succ] at hi hj
      have hhalf := ih (i := i / 2) (j := j / 2) (by omega) (by omega) (by omega)
      omega

/-- Every number is a code word. -/
theorem exists_gray (h : n < 2 ^ width) : ∃ i < 2 ^ width, gray i = n := by
  induction width generalizing n with
  | zero => exact ⟨0, by simp, by simp [gray]; omega⟩
  | succ width ih =>
      rw [pow_succ] at h ⊢
      obtain ⟨k, hk, hgray⟩ := ih (n := n / 2) (by omega)
      have hdigit : (k + n) % 2 < 2 := Nat.mod_lt _ (by decide)
      refine ⟨2 * k + (k + n) % 2, by omega, ?_⟩
      rw [gray_two_mul_add k hdigit, hgray]
      omega

theorem bijOn_gray (width : Nat) :
    Set.BijOn gray (Set.Iio (2 ^ width)) (Set.Iio (2 ^ width)) :=
  ⟨fun _ hi => gray_lt hi, fun _ hi _ hj h => gray_inj hi hj h, fun _ hn => exists_gray hn⟩

/-- **One step on in the code changes one digit.** -/
theorem oneApart_gray_succ (i : Nat) : OneApart (gray i) (gray (i + 1)) := by
  induction i using Nat.strong_induction_on with
  | _ i ih =>
      have hbit : ∀ n, n % 2 < 2 ^ 1 := fun n => Nat.mod_lt n (by decide)
      rcases Nat.even_or_odd' i with ⟨k, rfl | rfl⟩
      · -- the last digit goes from zero to one and nothing is carried
        have heven := gray_two_mul_add k (b := 0) (by decide)
        rw [Nat.add_zero] at heven
        rw [heven, gray_two_mul_add k (b := 1) (by decide)]
        exact (OneApart.of_digits (hbit _) (hbit _) (by omega)).low (hbit _) (hbit _) _
      · -- what is carried flips the parity in front, which keeps the last digit of the code
        have hnext : 2 * k + 1 + 1 = 2 * (k + 1) + 0 := by omega
        rw [hnext, gray_two_mul_add k (b := 1) (by decide),
          gray_two_mul_add (k + 1) (b := 0) (by decide), Nat.add_zero]
        exact (ih k (by omega)).high (hbit _)

theorem gray_last (width : Nat) : gray (2 ^ (width + 1) - 1) = 2 ^ width := by
  induction width with
  | zero => rfl
  | succ width ih =>
      have hpos : 0 < 2 ^ width := Nat.two_pow_pos width
      have hodd : 2 ^ (width + 1 + 1) - 1 = 2 * (2 ^ (width + 1) - 1) + 1 := by
        rw [pow_succ 2 (width + 1), pow_succ]
        omega
      rw [hodd, gray_two_mul_add _ (by decide), ih, pow_succ]
      omega

/-- So does the step from the last code word of a width back to the first. -/
theorem oneApart_gray_last (width : Nat) :
    OneApart (gray (2 ^ (width + 1) - 1)) (gray 0) := by
  refine ⟨width, ?_⟩
  intro i
  rw [gray_last, Nat.testBit_two_pow]
  simp [gray, eq_comm]

/-- The two places are next to each other in a circle of so many. -/
def Beside (count i j : Nat) : Prop :=
  (i + 1) % count = j ∨ (j + 1) % count = i

theorem oneApart_gray_next (hi : i < 2 ^ width) (hne : i ≠ (i + 1) % 2 ^ width) :
    OneApart (gray i) (gray ((i + 1) % 2 ^ width)) := by
  by_cases hlast : i + 1 < 2 ^ width
  · rw [Nat.mod_eq_of_lt hlast]
    exact oneApart_gray_succ i
  · obtain rfl : i = 2 ^ width - 1 := by omega
    rw [Nat.sub_add_cancel (Nat.two_pow_pos width), Nat.mod_self] at hne ⊢
    cases width with
    | zero => exact absurd rfl hne
    | succ width => exact oneApart_gray_last width

/-- **Neighbours in the circle of the code words differ in one digit.** -/
theorem oneApart_gray (hi : i < 2 ^ width) (hj : j < 2 ^ width) (hne : i ≠ j)
    (h : Beside (2 ^ width) i j) : OneApart (gray i) (gray j) := by
  rcases h with rfl | rfl
  · exact oneApart_gray_next hi hne
  · exact (oneApart_gray_next hj (Ne.symm hne)).symm

/-- In a machine word the code is what it is without a bound. -/
theorem toNat_gray_word (w : UInt64) : (w ^^^ (w >>> 1)).toNat = gray w.toNat := by
  have hshift : (w >>> 1).toNat = w.toNat >>> 1 := by
    rw [UInt64.toNat_shiftRight]
    rfl
  rw [UInt64.toNat_xor, hshift, gray]

/-- **The code words of a width make a circle.**  They are the numbers below a power of two, each
at one place; one step on changes one digit, and so does the step from the last place back to
the first.  Up to its own width, a machine word has the same code. -/
theorem gray_circle (width : Nat) :
    Set.BijOn gray (Set.Iio (2 ^ width)) (Set.Iio (2 ^ width)) ∧
    (∀ i, i + 1 < 2 ^ width → OneApart (gray i) (gray (i + 1))) ∧
    (1 ≤ width → OneApart (gray (2 ^ width - 1)) (gray 0)) ∧
    (width ≤ 64 → ∀ i < 2 ^ width,
      gray i = (UInt64.ofNat i ^^^ (UInt64.ofNat i >>> 1)).toNat) := by
  refine ⟨bijOn_gray width, fun i _ => oneApart_gray_succ i, fun hpos => ?_, fun hword i hi => ?_⟩
  · obtain ⟨k, rfl⟩ := Nat.exists_eq_add_of_le' hpos
    exact oneApart_gray_last k
  · have hfits : i < 2 ^ 64 := Nat.lt_of_lt_of_le hi (Nat.pow_le_pow_right (by decide) hword)
    rw [toNat_gray_word, UInt64.toNat_ofNat_of_lt' hfits]

/-- In a machine word the circle closes with the last number. -/
theorem gray_circle_word : (1 ≤ 64 ∧ OneApart (gray (2 ^ 64 - 1)) (gray 0)) ∧
    (2 ^ 64 - 2 + 1 < 2 ^ 64 ∧ OneApart (gray (2 ^ 64 - 2)) (gray (2 ^ 64 - 1))) ∧
    (64 ≤ 64 ∧ 2 ^ 64 - 1 < 2 ^ 64 ∧ gray (2 ^ 64 - 1) =
      (UInt64.ofNat (2 ^ 64 - 1) ^^^ (UInt64.ofNat (2 ^ 64 - 1) >>> 1)).toNat) := by
  obtain ⟨-, hstep, hback, hword⟩ := gray_circle 64
  refine ⟨⟨by decide, hback (by decide)⟩, ⟨by decide, hstep (2 ^ 64 - 2) (by decide)⟩, ?_⟩
  exact ⟨le_rfl, by decide, hword le_rfl _ (by decide)⟩

end

end Switching
