/-!
# Internet addresses

The text of an address of either version. An address of version 4 is four
decimal numbers without leading zeros. One of version 6 is eight groups of
hexadecimal digits, where one run of zero groups may be left out and the last
two groups may be written as an address of version 4; it is written with the
longest such run left out.
-/

namespace Ferry.Net

inductive IpAddress where
  | v4 (octets : List Nat)
  | v6 (groups : List Nat)
deriving DecidableEq, Repr, Inhabited

namespace IpAddress

/-! ## Reading -/

def hexDigit? (c : Char) : Option Nat :=
  if c.isDigit then some (c.toNat - 48)
  else if 'a' ≤ c && c ≤ 'f' then some (c.toNat - 87)
  else if 'A' ≤ c && c ≤ 'F' then some (c.toNat - 55)
  else none

/-- The characters of a number in front of a text, and the rest. -/
def spanDigits (isDigit : Char → Bool) (cs : List Char) : List Char × List Char :=
  (cs.takeWhile isDigit, cs.dropWhile isDigit)

/-- A decimal number below 256 without leading zeros. -/
def octet? (cs : List Char) : Option (Nat × List Char) :=
  let (ds, rest) := spanDigits Char.isDigit cs
  let n := ds.foldl (fun n c => n * 10 + (c.toNat - 48)) 0
  if ds.isEmpty || 3 < ds.length || 255 < n || (1 < ds.length && ds.head? == some '0') then none
  else some (n, rest)

/-- One to four hexadecimal digits. -/
def group? (cs : List Char) : Option (Nat × List Char) :=
  let (ds, rest) := spanDigits (fun c => (hexDigit? c).isSome) cs
  if ds.isEmpty || 4 < ds.length then none
  else some (ds.foldl (fun n c => n * 16 + (hexDigit? c).getD 0) 0, rest)

/-- Four octets with points between them. -/
def octets? (cs : List Char) : Option (List Nat × List Char) := do
  let (a, cs) ← octet? cs
  let '.' :: cs := cs | none
  let (b, cs) ← octet? cs
  let '.' :: cs := cs | none
  let (c, cs) ← octet? cs
  let '.' :: cs := cs | none
  let (d, cs) ← octet? cs
  some ([a, b, c, d], cs)

/-- The text after a colon, which only the first group goes without. -/
def afterColon? (first : Bool) (cs : List Char) : Option (List Char) :=
  match first, cs with
  | true, cs => some cs
  | false, ':' :: rest => some rest
  | false, _ => none

/-- Reads as many groups as there are, at most `limit`, and says whether the
last two were written as an address of version 4. -/
def groups : (limit : Nat) → (first : Bool) → List Char → List Nat × Bool × List Char
  | 0, _, cs => ([], false, cs)
  | limit + 1, first, cs =>
    match afterColon? first cs with
    | none => ([], false, cs)
    | some body =>
      let embedded := if limit = 0 then none else octets? body
      match embedded with
      | some ([a, b, c, d], rest) => ([a * 256 + b, c * 256 + d], true, rest)
      | _ =>
        match group? body with
        | none => ([], false, cs)
        | some (g, rest) =>
          let (gs, dotted, rest) := groups limit false rest
          (g :: gs, dotted, rest)

/-- The eight groups of an address of version 6. -/
def v6Groups? (cs : List Char) : Option (List Nat × List Char) :=
  let (front, dotted, rest) := groups 8 true cs
  if front.length = 8 then some (front, rest)
  else if dotted then none
  else match rest with
    | ':' :: ':' :: rest =>
      let (back, _, rest) := groups (7 - front.length) true rest
      some (front ++ List.replicate (8 - front.length - back.length) 0 ++ back, rest)
    | _ => none

/-- Reads an address. -/
def parse? (s : String) : Option IpAddress :=
  match octets? s.toList with
  | some (os, []) => some (.v4 os)
  | _ => match v6Groups? s.toList with
    | some (gs, []) => some (.v6 gs)
    | _ => none

/-! ## Writing -/

def joined (separator : List Char) : List (List Char) → List Char
  | [] => []
  | [p] => p
  | p :: ps => p ++ separator ++ joined separator ps

def octetsText (os : List Nat) : List Char :=
  joined ['.'] (os.map (Nat.toDigits 10))

def groupsText (gs : List Nat) : List Char :=
  joined [':'] (gs.map (Nat.toDigits 16))

/-- The number of zeros in front of a list. -/
def leadingZeros (gs : List Nat) : Nat :=
  (gs.takeWhile (· == 0)).length

/-- Where the first longest run of zeros starts and how long it is. -/
def longestZeros : (start : Nat) → List Nat → Nat × Nat
  | _, [] => (0, 0)
  | start, g :: gs =>
    let here := leadingZeros (g :: gs)
    let later := longestZeros (start + 1) gs
    if here = 0 || here < later.2 then later else (start, here)

/-- The text of an address. -/
def text : IpAddress → List Char
  | .v4 os => octetsText os
  | .v6 gs =>
    match gs with
    | [0, 0, 0, 0, 0, 0xffff, a, b] =>
      "::ffff:".toList ++ octetsText [a / 256, a % 256, b / 256, b % 256]
    | gs =>
      let (start, length) := longestZeros 0 gs
      if 1 < length then
        groupsText (gs.take start) ++ [':', ':'] ++ groupsText (gs.drop (start + length))
      else groupsText gs

def print (a : IpAddress) : String :=
  String.ofList a.text

end IpAddress

end Ferry.Net
