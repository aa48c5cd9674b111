import Ferry.Net.Utf8

/-!
# Percent signs in addresses

A percent sign and two hexadecimal digits stand for a byte. A percent sign
without them stands for itself.
-/

namespace Ferry.Net.Percent

/-- The value of a hexadecimal digit given as a byte. -/
def digit? (b : Nat) : Option Nat :=
  if 0x30 ≤ b && b ≤ 0x39 then some (b - 0x30)
  else if 0x41 ≤ b && b ≤ 0x46 then some (b - 0x37)
  else if 0x61 ≤ b && b ≤ 0x66 then some (b - 0x57)
  else none

def decodeBytes : List Nat → List Nat
  | 0x25 :: a :: b :: rest =>
    match digit? a, digit? b with
    | some x, some y => (x * 16 + y) :: decodeBytes rest
    | _, _ => 0x25 :: decodeBytes (a :: b :: rest)
  | b :: rest => b :: decodeBytes rest
  | [] => []

/-- The text that a segment of a path stands for, if its bytes are a text. -/
def decodeSegment? (segment : String) : Option String :=
  (Utf8.decode? (decodeBytes (Utf8.encode segment.toList))).map String.ofList

/-- The text that a part of a query stands for. A plus sign is a space there. -/
def decodeQuery (cs : List Char) : String :=
  let spaced := cs.map fun c => if c = '+' then ' ' else c
  String.ofList (Utf8.decodeMarked (decodeBytes (Utf8.encode spaced)))

/-- The parts of a text between the copies of a separator. -/
def splitAll (separator : Char) : List Char → List (List Char)
  | [] => [[]]
  | c :: cs =>
    if c = separator then [] :: splitAll separator cs
    else match splitAll separator cs with
      | [] => [[c]]
      | p :: ps => (c :: p) :: ps

/-- The names and values of a query. -/
def queryPairs (query : String) : List (String × String) :=
  ((splitAll '&' query.toList).filter fun part => !part.isEmpty).map fun part =>
    (decodeQuery (part.takeWhile (· != '=')), decodeQuery ((part.dropWhile (· != '=')).drop 1))

end Ferry.Net.Percent
