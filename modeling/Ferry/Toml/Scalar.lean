import Ferry.Json.Lexer
import Ferry.Time.Calendar
import Ferry.Toml.Text
import Ferry.Width

/-!
# Numbers, truth values and times of TOML

Underscores may stand between the digits of a number. An integer has 64 bits.
A time is only checked, since nothing here is configured by one.
-/

namespace Ferry.Toml

open Ferry.Time (daysInMonth)

/-- Digits with single underscores between them: the digits, and the rest. -/
def digitRun (isDigit : Char → Bool) : List Char → Option (List Char × List Char)
  | c :: '_' :: d :: rest =>
    if isDigit c then
      if isDigit d then (digitRun isDigit (d :: rest)).map fun p => (c :: p.1, p.2) else none
    else none
  | c :: rest =>
    if isDigit c then
      match rest with
      | [] => some ([c], [])
      | '_' :: _ => none
      | d :: _ =>
        if isDigit d then (digitRun isDigit rest).map fun p => (c :: p.1, p.2)
        else some ([c], rest)
    else none
  | [] => none

def isHexDigit (c : Char) : Bool := (hexValue? c).isSome

def isDigitBelow (base : Nat) (c : Char) : Bool :=
  match hexValue? c with
  | some v => v < base
  | none => false

def valueIn (base : Nat) (digits : List Char) : Nat :=
  digits.foldl (fun n c => n * base + (hexValue? c).getD 0) 0

/-- An optional sign: true for minus. -/
def sign : List Char → Bool × List Char
  | '-' :: rest => (true, rest)
  | '+' :: rest => (false, rest)
  | cs => (false, cs)

/-- The digits of a decimal integer, without superfluous zeros. -/
def decimalDigits (cs : List Char) : Option (List Char × List Char) :=
  match cs with
  | '0' :: rest => some (['0'], rest)
  | cs => digitRun Char.isDigit cs

/-- The document for an integer, which has 64 bits. -/
def ofInteger (n : Int) : Option Json.Draft :=
  if !Width.isSigned64 n then none
  else if n < 0 then some (.num .other)
  else some (.num (.natural n.toNat))

/-- An integer in another base. -/
def prefixedInteger (base : Nat) (cs : List Char) : Option (Json.Draft × List Char) := do
  let (ds, rest) ← digitRun (isDigitBelow base) cs
  let n ← ofInteger (valueIn base ds)
  some (n, rest)

/-- An exponent, if there is one. -/
def exponent (cs : List Char) : Option (Option Int × List Char) :=
  match cs with
  | c :: rest =>
    if c = 'e' || c = 'E' then do
      let (negative, rest) := sign rest
      let (ds, rest) ← digitRun Char.isDigit rest
      let n : Int := valueIn 10 ds
      some (some (if negative then -n else n), rest)
    else some (none, cs)
  | [] => some (none, [])

/-- A fraction, if there is one. -/
def fraction (cs : List Char) : Option (List Char × List Char) :=
  match cs with
  | '.' :: rest => digitRun Char.isDigit rest
  | cs => some ([], cs)

/-- A decimal number. -/
def decimal (cs : List Char) : Option (Json.Draft × List Char) := do
  let (negative, cs) := sign cs
  let (whole, cs) ← decimalDigits cs
  let (frac, cs) ← fraction cs
  let (exp, cs) ← exponent cs
  if frac.isEmpty && exp.isNone then
    let n : Int := valueIn 10 whole
    let d ← ofInteger (if negative then -n else n)
    some (d, cs)
  else if !negative && Json.overflows (valueIn 10 (whole ++ frac)) (exp.getD 0 - frac.length) then
    none
  else some (.num .other, cs)

/-- The text after a word. -/
def word? (w cs : List Char) : Option (List Char) :=
  if w.isPrefixOf cs then some (cs.drop w.length) else none

/-- A number that is none, or an infinite one. -/
def specialFloat (cs : List Char) : Option (Json.Draft × List Char) :=
  let (_, cs) := sign cs
  match word? "inf".toList cs <|> word? "nan".toList cs with
  | some rest => some (.num .other, rest)
  | none => none

def number (cs : List Char) : Option (Json.Draft × List Char) :=
  match cs with
  | '0' :: 'x' :: rest => prefixedInteger 16 rest
  | '0' :: 'o' :: rest => prefixedInteger 8 rest
  | '0' :: 'b' :: rest => prefixedInteger 2 rest
  | cs => match specialFloat cs with
    | some r => some r
    | none => decimal cs

/-! ## Times -/

/-- A number of exactly so many digits. -/
def fixedDigits (n : Nat) (cs : List Char) : Option (Nat × List Char) :=
  let ds := cs.take n
  if ds.length = n && ds.all Char.isDigit then some (valueIn 10 ds, cs.drop n) else none

def inBounds (low high : Nat) (r : Option (Nat × List Char)) : Option (Nat × List Char) :=
  r.filter fun p => low ≤ p.1 && p.1 ≤ high

/-- Hours, minutes and seconds, and a fraction of a second. -/
def clockTime (cs : List Char) : Option (List Char) := do
  let (_, cs) ← inBounds 0 23 (fixedDigits 2 cs)
  let ':' :: cs := cs | none
  let (_, cs) ← inBounds 0 59 (fixedDigits 2 cs)
  let ':' :: cs := cs | none
  let (_, cs) ← inBounds 0 60 (fixedDigits 2 cs)
  match cs with
  | '.' :: c :: rest => if c.isDigit then some (rest.dropWhile Char.isDigit) else some cs
  | cs => some cs

/-- The offset of a time, if there is one. -/
def timeOffset (cs : List Char) : Option (List Char) :=
  match cs with
  | [] => some []
  | c :: rest =>
    if c = 'Z' || c = 'z' then some rest
    else if c = '+' || c = '-' then do
      let (_, cs) ← inBounds 0 23 (fixedDigits 2 rest)
      let ':' :: cs := cs | none
      let (_, cs) ← inBounds 0 59 (fixedDigits 2 cs)
      some cs
    else some cs

/-- Year, month and day of a date that exists. -/
def calendarDate (cs : List Char) : Option (List Char) := do
  let (year, cs) ← fixedDigits 4 cs
  let '-' :: cs := cs | none
  let (month, cs) ← inBounds 1 12 (fixedDigits 2 cs)
  let '-' :: cs := cs | none
  let (_, cs) ← inBounds 1 (daysInMonth year month) (fixedDigits 2 cs)
  some cs

/-- The time after a date, if there is one. -/
def timeAfterDate (cs : List Char) : Option (List Char) :=
  match cs with
  | c :: rest =>
    if c = 'T' || c = 't' || c = ' ' then
      match fixedDigits 2 rest with
      | some (hour, ':' :: _) =>
        if hour ≤ 23 then (clockTime rest).bind timeOffset else some cs
      | _ => some cs
    else some cs
  | [] => some []

/-- The text looks like the beginning of a date. -/
def startsDate (cs : List Char) : Bool :=
  match fixedDigits 4 cs with
  | some (_, '-' :: _) => true
  | _ => false

/-- The text looks like the beginning of a time. -/
def startsTime (cs : List Char) : Bool :=
  match fixedDigits 2 cs with
  | some (hour, ':' :: _) => hour ≤ 23
  | _ => false

/-- A time as a document: a record without a field that anybody asks for. -/
def timeDraft : Json.Draft :=
  .obj [] true

/-- A number, or a date or a time. -/
def numberOrTime (cs : List Char) : Option (Json.Draft × List Char) :=
  if startsDate cs then
    ((calendarDate cs).bind timeAfterDate).map fun rest => (timeDraft, rest)
  else if startsTime cs then (clockTime cs).map fun rest => (timeDraft, rest)
  else number cs

/-- A value that is neither a string nor made of other values. -/
def scalar (cs : List Char) : Option (Json.Draft × List Char) :=
  match word? "true".toList cs with
  | some rest => some (.bool true, rest)
  | none => match word? "false".toList cs with
    | some rest => some (.bool false, rest)
    | none => numberOrTime cs

end Ferry.Toml
