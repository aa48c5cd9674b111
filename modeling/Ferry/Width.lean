/-!
# Widths of numbers

The bounds of the integers of fixed width that documents, columns and settings
hold, and the powers by which numerals are scaled.
-/

namespace Ferry.Width

/-- Two to the power of `k`. -/
def twoTo (k : Nat) : Nat :=
  Nat.pow 2 k

/-- Ten to the power of `k`. -/
def tenTo (k : Nat) : Nat :=
  Nat.pow 10 k

/-- Unsigned integers of 16 bits are below this. -/
def bound16 : Nat := 65536

/-- Unsigned integers of 32 bits are below this. -/
def bound32 : Nat := 4294967296

/-- Unsigned integers of 64 bits are below this. -/
def bound64 : Nat := 18446744073709551616

/-- Signed integers of 64 bits are below this. -/
def bound63 : Nat := 9223372036854775808

/-- The integer is one of 64 bits with a sign. -/
def isSigned64 (n : Int) : Bool :=
  -(bound63 : Int) ≤ n && n < (bound63 : Int)

end Ferry.Width
