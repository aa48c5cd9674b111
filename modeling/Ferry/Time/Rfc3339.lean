import Ferry.Text.Blank
import Ferry.Time.Instant
import Ferry.Width

/-!
# Time stamps as text

Two readers and one writer for the notation of RFC 3339. The strict reader is
for stored columns: four digits of a year, two of everything else, a colon in
the offset. The lenient one is for documents written by people: blanks between
the parts, short numbers, a signed year of any length, an offset with or
without its colon. The writer gives 0, 3, 6 or 9 digits of a fraction, the
fewest that lose nothing, and a sign to a year outside 0..9999.
-/

namespace Ferry.Time

open Ferry.Text

/-! ## Numbers -/

/-- The value of a run of decimal digits. -/
def digitsValue (cs : List Char) : Nat :=
  cs.foldl (fun n c => n * 10 + (c.toNat - 48)) 0

/-- At most `most` digits from the front of a text, as a number; at least one. -/
def number? (most : Nat) (cs : List Char) : Option (Nat × List Char) :=
  let ds := (cs.take most).takeWhile Char.isDigit
  if ds.isEmpty then none else some (digitsValue ds, cs.drop ds.length)

/-- Exactly `n` digits from the front of a text, as a number. -/
def fixedNumber? (n : Nat) (cs : List Char) : Option (Nat × List Char) :=
  let ds := (cs.take n).takeWhile Char.isDigit
  if ds.length = n then some (digitsValue ds, cs.drop n) else none

/-- The rest of a text that begins with `c`. -/
def expect? (c : Char) : List Char → Option (List Char)
  | d :: rest => if d = c then some rest else none
  | [] => none

/-- The nanoseconds of a decimal fraction, if a point stands next: nine digits
count and further ones are dropped. -/
def fraction? (cs : List Char) : Option (Nat × List Char) :=
  match cs with
  | '.' :: rest => do
    let ds := rest.takeWhile Char.isDigit
    if ds.isEmpty then none
    else
      let kept := ds.take 9
      some (digitsValue kept * Width.tenTo (9 - kept.length), rest.drop ds.length)
  | _ => some (0, cs)

/-- The sign of an offset: true for the minus signs. -/
def offsetSign? : List Char → Option (Bool × List Char)
  | '+' :: rest => some (false, rest)
  | '-' :: rest => some (true, rest)
  | '\u2212' :: rest => some (true, rest)
  | _ => none

/-- An offset from UTC in seconds: `Z`, or a sign, two digits of hours, whatever
`separator` takes off, and two digits of minutes below 60. -/
def offset? (separator : List Char → Option (List Char)) (cs : List Char) :
    Option (Int × List Char) :=
  match cs with
  | 'Z' :: rest => some (0, rest)
  | 'z' :: rest => some (0, rest)
  | _ => do
    let (negative, rest) ← offsetSign? cs
    let (hours, rest) ← fixedNumber? 2 rest
    let rest ← separator rest
    let (minutes, rest) ← fixedNumber? 2 rest
    if minutes < 60 then
      let s : Int := hours * 3600 + minutes * 60
      some (if negative then -s else s, rest)
    else none

/-! ## Instants from their fields -/

/-- The fields of a written time stamp. -/
structure Fields where
  year : Int
  month : Nat
  day : Nat
  hour : Nat
  minute : Nat
  second : Nat
  nanos : Nat
  offset : Int

/-- The instant that the fields name, if there is such a day, such a time (a
60th second counts) and an offset of less than a day. -/
def Fields.toInstant? (f : Fields) : Option Instant :=
  let date : Date := ⟨f.year, f.month, f.day⟩
  let valid :=
    Instant.minYear ≤ f.year && f.year ≤ Instant.maxYear && date.exists? &&
    f.hour < 24 && f.minute < 60 && f.second ≤ 60 &&
    -86400 < f.offset && f.offset < 86400
  if valid then
    let second := min f.second 59
    let nanos := if f.second = 60 then f.nanos + 1000000000 else f.nanos
    let civil : Int := date.toDays * 86400 + f.hour * 3600 + f.minute * 60 + second
    let t : Instant := ⟨civil - f.offset, nanos⟩
    if t.inRange then some t else none
  else none

/-- A character that may stand between a date and a time. -/
def isDateTimeMark (c : Char) : Bool :=
  c = 'T' || c = 't' || c = ' '

/-! ## The strict reader -/

def strictFields? (cs : List Char) : Option Fields := do
  let (year, cs) ← fixedNumber? 4 cs
  let cs ← expect? '-' cs
  let (month, cs) ← fixedNumber? 2 cs
  let cs ← expect? '-' cs
  let (day, cs) ← fixedNumber? 2 cs
  let (hour, cs) ← match cs with
    | c :: rest => if isDateTimeMark c then fixedNumber? 2 rest else none
    | [] => none
  let cs ← expect? ':' cs
  let (minute, cs) ← fixedNumber? 2 cs
  let cs ← expect? ':' cs
  let (second, cs) ← fixedNumber? 2 cs
  let (nanos, cs) ← fraction? cs
  let (offset, cs) ← offset? (expect? ':') cs
  if cs.isEmpty then some ⟨year, month, day, hour, minute, second, nanos, offset⟩ else none

/-- Reads a stored time stamp. -/
def parse? (s : String) : Option Instant :=
  (strictFields? s.toList).bind Fields.toInstant?

/-! ## The lenient reader -/

/-- A year: an explicit sign allows any number of digits, otherwise four at most. -/
def lenientYear? (cs : List Char) : Option (Int × List Char) :=
  match trimStart cs with
  | '-' :: rest => (number? rest.length rest).map fun p => (-(p.1 : Int), p.2)
  | '+' :: rest => (number? rest.length rest).map fun p => ((p.1 : Int), p.2)
  | cs => (number? 4 cs).map fun p => ((p.1 : Int), p.2)

/-- One or two digits after optional blanks. -/
def lenientNumber? (cs : List Char) : Option (Nat × List Char) :=
  number? 2 (trimStart cs)

/-- Any run of colons and blanks. -/
def colonsAndBlanks (cs : List Char) : Option (List Char) :=
  some (cs.dropWhile fun c => c = ':' || isBlank c)

/-- An offset, with `UTC` in any case for zero. -/
def lenientOffset? (cs : List Char) : Option (Int × List Char) :=
  if (cs.take 3).map Char.toUpper = ['U', 'T', 'C'] then some (0, cs.drop 3)
  else offset? colonsAndBlanks cs

def lenientFields? (cs : List Char) : Option Fields := do
  let (year, cs) ← lenientYear? cs
  let cs ← expect? '-' (trimStart cs)
  let (month, cs) ← lenientNumber? cs
  let cs ← expect? '-' (trimStart cs)
  let (day, cs) ← lenientNumber? cs
  let (hour, cs) ← match cs with
    | c :: rest => if isDateTimeMark c then lenientNumber? rest else none
    | [] => none
  let cs ← expect? ':' (trimStart cs)
  let (minute, cs) ← lenientNumber? cs
  let cs ← expect? ':' (trimStart cs)
  let (second, cs) ← lenientNumber? cs
  let (nanos, cs) ← fraction? cs
  let (offset, cs) ← lenientOffset? (trimStart cs)
  if (trimStart cs).isEmpty then
    some ⟨year, month, day, hour, minute, second, nanos, offset⟩
  else none

/-- Reads a time stamp of a document. -/
def parseLenient? (s : String) : Option Instant :=
  (lenientFields? s.toList).bind Fields.toInstant?

/-! ## The writer -/

/-- A number with zeros before it up to a width. -/
def padded (width n : Nat) : List Char :=
  let ds := Nat.toDigits 10 n
  List.replicate (width - ds.length) '0' ++ ds

/-- Four digits for the years 0..9999, otherwise a sign and at least four. -/
def yearText (year : Int) : List Char :=
  if 0 ≤ year && year ≤ 9999 then padded 4 year.toNat
  else (if year < 0 then '-' else '+') :: padded 4 year.natAbs

/-- The fraction of a second, in the fewest groups of three digits that keep it. -/
def fractionText (nanos : Nat) : List Char :=
  if nanos = 0 then []
  else if nanos % 1000000 = 0 then '.' :: padded 3 (nanos / 1000000)
  else if nanos % 1000 = 0 then '.' :: padded 6 (nanos / 1000)
  else '.' :: padded 9 nanos

/-- The time stamp up to its offset. -/
def stamp (t : Instant) : List Char :=
  let date := Date.ofDays (t.seconds / 86400)
  let secondOfDay := (t.seconds % 86400).toNat
  let leap := 1000000000 ≤ t.nanos
  let second := secondOfDay % 60 + if leap then 1 else 0
  let nanos := if leap then t.nanos - 1000000000 else t.nanos
  yearText date.year ++ '-' :: padded 2 date.month ++ '-' :: padded 2 date.day ++
    'T' :: padded 2 (secondOfDay / 3600) ++ ':' :: padded 2 (secondOfDay / 60 % 60) ++
    ':' :: padded 2 second ++ fractionText nanos

/-- The form used in documents, with `Z` for UTC. -/
def Instant.toZulu (t : Instant) : String :=
  String.ofList (stamp t ++ ['Z'])

/-- The form used in columns and answers, with a numeric offset. -/
def Instant.toOffset (t : Instant) : String :=
  String.ofList (stamp t ++ ['+', '0', '0', ':', '0', '0'])

end Ferry.Time
