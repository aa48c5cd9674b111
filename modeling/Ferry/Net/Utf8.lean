/-!
# Characters as bytes

The encoding of characters in one to four bytes, and the reading of bytes that
may be no such encoding. Where they are none, the longest beginning of one
counts as a single mistake, and a byte that begins none as a mistake of its own.
-/

namespace Ferry.Net.Utf8

def encodeChar (c : Char) : List Nat :=
  let n := c.toNat
  if n < 0x80 then [n]
  else if n < 0x800 then [0xc0 + n / 0x40, 0x80 + n % 0x40]
  else if n < 0x10000 then [0xe0 + n / 0x1000, 0x80 + n / 0x40 % 0x40, 0x80 + n % 0x40]
  else [0xf0 + n / 0x40000, 0x80 + n / 0x1000 % 0x40, 0x80 + n / 0x40 % 0x40, 0x80 + n % 0x40]

def encode (cs : List Char) : List Nat :=
  cs.flatMap encodeChar

/-- A byte that goes on with a character. -/
def isTail (b : Nat) : Bool :=
  0x80 ≤ b && b < 0xc0

/-- The second byte of a character of three or four bytes may follow the first:
no character is written longer than it has to be, and none is beyond the range. -/
def mayFollow (a b : Nat) : Bool :=
  let low := if a = 0xe0 then 0xa0 else if a = 0xf0 then 0x90 else 0x80
  let high := if a = 0xed then 0x9f else if a = 0xf4 then 0x8f else 0xbf
  low ≤ b && b ≤ high

/-- How many bytes a character has that begins with a byte; zero if none does. -/
def lengthFrom (a : Nat) : Nat :=
  if a < 0x80 then 1
  else if a < 0xc2 then 0
  else if a < 0xe0 then 2
  else if a < 0xf0 then 3
  else if a < 0xf5 then 4
  else 0

/-- The character at the front of some bytes, `none` for a mistake, and the bytes
after it. -/
def next (a : Nat) (rest : List Nat) : Option Char × List Nat :=
  match lengthFrom a, rest with
  | 1, rest => (some (Char.ofNat a), rest)
  | 2, b :: more =>
    if isTail b then (some (Char.ofNat ((a - 0xc0) * 0x40 + (b - 0x80))), more) else (none, rest)
  | 3, b :: more =>
    if !mayFollow a b then (none, rest)
    else match more with
      | [] => (none, [])
      | c :: last =>
        if isTail c then
          (some (Char.ofNat ((a - 0xe0) * 0x1000 + (b - 0x80) * 0x40 + (c - 0x80))), last)
        else (none, more)
  | 4, b :: more =>
    if !mayFollow a b then (none, rest)
    else match more with
      | [] => (none, [])
      | c :: third =>
        if !isTail c then (none, more)
        else match third with
          | [] => (none, [])
          | d :: last =>
            if isTail d then
              (some (Char.ofNat ((a - 0xf0) * 0x40000 + (b - 0x80) * 0x1000 + (c - 0x80) * 0x40 +
                (d - 0x80))), last)
            else (none, third)
  | _, rest => (none, rest)

/-- The characters and mistakes of at most so many characters' bytes. -/
def readWithin : Nat → List Nat → List (Option Char)
  | 0, _ => []
  | _, [] => []
  | n + 1, a :: rest =>
    let (c, rest) := next a rest
    c :: readWithin n rest

/-- The characters and mistakes of some bytes. -/
def readAll (bytes : List Nat) : List (Option Char) :=
  readWithin bytes.length bytes

/-- The text of some bytes, if there is no mistake in them. -/
def decode? (bytes : List Nat) : Option (List Char) :=
  (readAll bytes).mapM id

/-- The text of some bytes, with a mark in the place of each mistake. -/
def decodeMarked (bytes : List Nat) : List Char :=
  (readAll bytes).map fun c => c.getD '\uFFFD'

end Ferry.Net.Utf8
