/-
Words of bits.

A row of a truth table is known by its index, whose binary digits are the values of the
variables, the most significant digit first.  The two sides of a Karnaugh map count in
the reflected code instead, in which neighbours differ in a single digit.
-/

namespace Switching

/-- The lowest `width` binary digits of a number, the most significant one first. -/
def bits (width n : Nat) : List Bool :=
  (List.range width).map fun k => n.testBit (width - 1 - k)

/-- The digit for a truth value. -/
def bitChar (b : Bool) : Char :=
  if b then '1' else '0'

/-- Truth values as digits, one after another. -/
def bitsText (bs : List Bool) : String :=
  String.ofList (bs.map bitChar)

/-- The word at place `i` of the reflected code. -/
def gray (i : Nat) : Nat :=
  i ^^^ (i >>> 1)

end Switching
