import Ferry.Json.Basic
import Ferry.Width

/-!
# The words of a JSON text

Splits a text into punctuation, literals, numbers and strings. Where the text
stops being a sequence of such words, the list ends with `bad`; everything
before it stands.
-/

namespace Ferry.Json

inductive Token where
  | openArr
  | closeArr
  | openObj
  | closeObj
  | comma
  | colon
  | null
  | bool (b : Bool)
  | num (n : Number)
  | str (s : String)
  | unpaired
  | bad
deriving DecidableEq, Repr

/-! ## Strings -/

def hexValue? (c : Char) : Option Nat :=
  if '0' ≤ c && c ≤ '9' then some (c.toNat - 48)
  else if 'a' ≤ c && c ≤ 'f' then some (c.toNat - 87)
  else if 'A' ≤ c && c ≤ 'F' then some (c.toNat - 55)
  else none

/-- The value of four hexadecimal digits. -/
def hex4? (a b c d : Char) : Option Nat := do
  let a ← hexValue? a
  let b ← hexValue? b
  let c ← hexValue? c
  let d ← hexValue? d
  some (((a * 16 + b) * 16 + c) * 16 + d)

/-- One unit of a string as written: a character, or a 16 bit number given by
an escape. -/
inductive Piece where
  | char (c : Char)
  | unit (n : Nat)
deriving DecidableEq, Repr

/-- The character that a one letter escape stands for. -/
def simpleEscape? : Char → Option Char
  | '"' => some '"'
  | '\\' => some '\\'
  | '/' => some '/'
  | 'b' => some '\x08'
  | 'f' => some '\x0c'
  | 'n' => some '\n'
  | 'r' => some '\r'
  | 't' => some '\t'
  | _ => none

/-- The pieces of a string up to its closing quote, and the text after it. -/
def stringPieces? : List Char → Option (List Piece × List Char)
  | [] => none
  | '"' :: rest => some ([], rest)
  | '\\' :: 'u' :: a :: b :: c :: d :: rest => do
    let n ← hex4? a b c d
    let (ps, rest) ← stringPieces? rest
    some (.unit n :: ps, rest)
  | '\\' :: c :: rest => do
    let c ← simpleEscape? c
    let (ps, rest) ← stringPieces? rest
    some (.char c :: ps, rest)
  | c :: rest =>
    if c.toNat < 0x20 || c = '\\' then none
    else do
      let (ps, rest) ← stringPieces? rest
      some (.char c :: ps, rest)

/-- The characters of a list of pieces: two halves of a surrogate pair make one
character, a half alone makes none. -/
def pieceChars? : List Piece → Option (List Char)
  | [] => some []
  | .char c :: rest => (pieceChars? rest).map (c :: ·)
  | .unit hi :: .unit lo :: rest =>
    if 0xd800 ≤ hi && hi < 0xdc00 then
      if 0xdc00 ≤ lo && lo < 0xe000 then
        let n := (hi - 0xd800) * 0x400 + (lo - 0xdc00) + 0x10000
        (pieceChars? rest).map (Char.ofNat n :: ·)
      else none
    else if 0xdc00 ≤ hi && hi < 0xe000 then none
    else (pieceChars? (.unit lo :: rest)).map (Char.ofNat hi :: ·)
  | .unit n :: rest =>
    if 0xd800 ≤ n && n < 0xe000 then none
    else (pieceChars? rest).map (Char.ofNat n :: ·)

/-- A string after its opening quote. -/
def lexString (cs : List Char) : Option (Token × List Char) :=
  (stringPieces? cs).map fun p =>
    match pieceChars? p.1 with
    | some chars => (.str (String.ofList chars), p.2)
    | none => (.unpaired, p.2)

/-! ## Numbers -/

/-- The value of decimal digits. -/
def decimalValue (cs : List Char) : Nat :=
  cs.foldl (fun n c => n * 10 + (c.toNat - 48)) 0

/-- The least number that rounds to 2 ^ 1024, which no double holds. -/
def tooLarge : Nat :=
  Width.twoTo 1024 - Width.twoTo 970

/-- A decimal numeral is too large for a double. -/
def overflows (mantissa : Nat) (exponent : Int) : Bool :=
  if mantissa = 0 || exponent + (Nat.toDigits 10 mantissa).length < 309 then false
  else if 400 < exponent then true
  else if 0 ≤ exponent then tooLarge ≤ mantissa * Width.tenTo exponent.toNat
  else tooLarge * Width.tenTo exponent.natAbs ≤ mantissa

/-- The digits of an optional fraction; none where a point lacks its digits. -/
def fractionDigits? : List Char → Option (List Char × List Char)
  | '.' :: rest =>
    let ds := rest.takeWhile Char.isDigit
    if ds.isEmpty then none else some (ds, rest.drop ds.length)
  | cs => some ([], cs)

/-- An optional exponent, zero where there is none. -/
def exponent? (cs : List Char) : Option (Option Int × List Char) :=
  match cs with
  | c :: rest =>
    if c = 'e' || c = 'E' then
      let (negative, rest) := match rest with
        | '+' :: rest => (false, rest)
        | '-' :: rest => (true, rest)
        | rest => (false, rest)
      let ds := rest.takeWhile Char.isDigit
      if ds.isEmpty then none
      else
        let n : Int := decimalValue ds
        some (some (if negative then -n else n), rest.drop ds.length)
    else some (none, cs)
  | [] => some (none, [])

/-- A number without its sign. -/
def lexNumber (negative : Bool) (cs : List Char) : Option (Token × List Char) := do
  let whole := cs.takeWhile Char.isDigit
  if whole.isEmpty || (whole.head? = some '0' && 1 < whole.length) then none
  else
    let (frac, rest) ← fractionDigits? (cs.drop whole.length)
    let (exp, rest) ← exponent? rest
    let mantissa := decimalValue (whole ++ frac)
    let scale := exp.getD 0 - frac.length
    let n : Number :=
      if frac.isEmpty && exp.isNone && !negative && mantissa < Width.bound64 then .natural mantissa
      else if overflows mantissa scale then .overflow
      else .other
    some (.num n, rest)

/-! ## Words -/

def isJsonSpace (c : Char) : Bool :=
  c = ' ' || c = '\n' || c = '\t' || c = '\r'

/-- The next word, at a character that is no space. -/
def lexWord (c : Char) (rest : List Char) : Option (Token × List Char) :=
  match c, rest with
  | '[', rest => some (.openArr, rest)
  | ']', rest => some (.closeArr, rest)
  | '\x7b', rest => some (.openObj, rest)
  | '\x7d', rest => some (.closeObj, rest)
  | ',', rest => some (.comma, rest)
  | ':', rest => some (.colon, rest)
  | '"', rest => lexString rest
  | 'n', 'u' :: 'l' :: 'l' :: rest => some (.null, rest)
  | 't', 'r' :: 'u' :: 'e' :: rest => some (.bool true, rest)
  | 'f', 'a' :: 'l' :: 's' :: 'e' :: rest => some (.bool false, rest)
  | '-', rest => lexNumber true rest
  | c, rest => if c.isDigit then lexNumber false (c :: rest) else none

/-- The words of a text. Every word takes at least one character, so the length
of the text bounds their number. -/
def tokensWithin : Nat → List Char → List Token
  | _, [] => []
  | 0, _ => [.bad]
  | n + 1, c :: rest =>
    if isJsonSpace c then tokensWithin n rest
    else match lexWord c rest with
      | some (t, rest) => t :: tokensWithin n rest
      | none => [.bad]

def tokens (cs : List Char) : List Token :=
  tokensWithin cs.length cs

end Ferry.Json
