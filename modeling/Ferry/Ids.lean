/-!
# Identifiers

Jobs, definitions and resources get their ids from a counter. The id of a
number is the number in hexadecimal at the end of a fixed pattern, so different
numbers have different ids.
-/

namespace Ferry

structure IdSource where
  /-- How many ids have been given out. -/
  used : Nat := 0
deriving DecidableEq, Repr, Inhabited

namespace IdSource

/-- The digits of a number, filled up with zeros to a width. -/
def digits (width n : Nat) : List Char :=
  let ds := Nat.toDigits 16 n
  List.replicate (width - ds.length) '0' ++ ds

/-- The id of a number. -/
def idOf (n : Nat) : String :=
  "f3a1c0de-0000-4000-8000-" ++ String.ofList (digits 12 n)

/-- The next id. -/
def fresh (s : IdSource) : String × IdSource :=
  (idOf s.used, ⟨s.used + 1⟩)

end IdSource

end Ferry
