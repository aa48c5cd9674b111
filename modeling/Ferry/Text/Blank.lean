/-!
# Blank characters

What counts as white space when an identifier is tested for emptiness and
when a time stamp is read leniently: the characters with the Unicode property
White_Space, which is more than the ASCII blanks and leaves out the zero
width ones.
-/

namespace Ferry.Text

/-- The ranges of the Unicode property White_Space, ends included. -/
def blankRanges : List (Nat × Nat) :=
  [(0x09, 0x0d), (0x20, 0x20), (0x85, 0x85), (0xa0, 0xa0), (0x1680, 0x1680),
   (0x2000, 0x200a), (0x2028, 0x2029), (0x202f, 0x202f), (0x205f, 0x205f),
   (0x3000, 0x3000)]

/-- Membership of a code point in a list of closed ranges. -/
def inRanges (ranges : List (Nat × Nat)) (n : Nat) : Bool :=
  ranges.any fun r => r.1 ≤ n && n ≤ r.2

def isBlank (c : Char) : Bool :=
  inRanges blankRanges c.toNat

/-- The text after its leading blanks. -/
def trimStart (cs : List Char) : List Char :=
  cs.dropWhile isBlank

/-- The text between its leading and its trailing blanks. -/
def trim (cs : List Char) : List Char :=
  (trimStart (trimStart cs).reverse).reverse

/-- An identifier made of blanks alone names nothing. -/
def allBlank (s : String) : Bool :=
  s.toList.all isBlank

/-- The text without the copies of `c` at its end. -/
def dropTrailing (c : Char) (s : String) : String :=
  String.ofList (s.toList.reverse.dropWhile (· == c)).reverse

end Ferry.Text
