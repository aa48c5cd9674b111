import Ferry.Width

/-!
# Cells of the job table

A column has a type, and a value written to it is brought to that type where
nothing is lost: numbers become text in a text column, and text that is a
numeral becomes a number in an integer column. Everything else is stored as it
was given.
-/

namespace Ferry.Store

inductive Cell where
  | null
  | integer (n : Int)
  /-- The number `mantissa * 10 ^ scale`, which is no 64 bit integer. -/
  | decimal (mantissa scale : Int)
  | text (s : String)
deriving DecidableEq, Repr, Inhabited

/-- The declared type of a column. -/
inductive Affinity where
  | text
  | integer
deriving DecidableEq, Repr

/-! ## Numerals -/

def isNumeralSpace (c : Char) : Bool :=
  c = ' ' || (0x09 ≤ c.toNat && c.toNat ≤ 0x0d)

def numeralValue (cs : List Char) : Nat :=
  cs.foldl (fun n c => n * 10 + (c.toNat - 48)) 0

/-- A sign in front of a text: true for minus. -/
def takeSign : List Char → Bool × List Char
  | '-' :: rest => (true, rest)
  | '+' :: rest => (false, rest)
  | cs => (false, cs)

/-- The power of ten at the end of a numeral, zero if nothing is left. -/
def exponentOf? (cs : List Char) : Option Int :=
  match cs with
  | [] => some 0
  | c :: rest =>
    if c = 'e' || c = 'E' then
      let (negative, ds) := takeSign rest
      if ds.isEmpty || !ds.all Char.isDigit then none
      else some (if negative then -(numeralValue ds : Int) else numeralValue ds)
    else none

/-- A decimal numeral between blanks as mantissa and power of ten: digits on at
least one side of an optional point, and an optional exponent. -/
def numeral? (s : String) : Option (Int × Int) := do
  let cs := s.toList.dropWhile isNumeralSpace
  let cs := (cs.reverse.dropWhile isNumeralSpace).reverse
  let (negative, cs) := takeSign cs
  let whole := cs.takeWhile Char.isDigit
  let cs := cs.drop whole.length
  let (frac, cs) := match cs with
    | '.' :: rest => (rest.takeWhile Char.isDigit, rest.dropWhile Char.isDigit)
    | cs => ([], cs)
  if whole.isEmpty && frac.isEmpty then none
  else
    let exp ← exponentOf? cs
    let mantissa : Int := numeralValue (whole ++ frac)
    some (if negative then -mantissa else mantissa, exp - frac.length)

/-- The cell of a number: an integer if it is one of 64 bits. -/
def Cell.ofNumber (mantissa scale : Int) : Cell :=
  if mantissa = 0 then .integer 0
  else if 0 ≤ scale then
    if scale ≤ 19 && Width.isSigned64 (mantissa * Width.tenTo scale.toNat) then
      .integer (mantissa * Width.tenTo scale.toNat)
    else .decimal mantissa scale
  else
    let unit : Int := Width.tenTo scale.natAbs
    if mantissa % unit = 0 && Width.isSigned64 (mantissa / unit) then .integer (mantissa / unit)
    else .decimal mantissa scale

/-- What is stored when a value is written to a column of a type. -/
def Affinity.apply : Affinity → Cell → Cell
  | .text, .integer n => .text (toString n)
  | .integer, .text s =>
    match numeral? s with
    | some (mantissa, scale) => .ofNumber mantissa scale
    | none => .text s
  | _, c => c

/-! ## Order and reading -/

/-- `a * 10 ^ i ≤ b * 10 ^ j`. -/
def scaledLe (a i b j : Int) : Bool :=
  let low := min i j
  a * Width.tenTo (i - low).toNat ≤ b * Width.tenTo (j - low).toNat

/-- The order of a sorted column: nothing first, then numbers by value, then text. -/
def Cell.le : Cell → Cell → Bool
  | .null, _ => true
  | _, .null => false
  | .integer a, .integer b => a ≤ b
  | .integer a, .decimal b j => scaledLe a 0 b j
  | .decimal a i, .integer b => scaledLe a i b 0
  | .decimal a i, .decimal b j => scaledLe a i b j
  | .text s, .text t => s ≤ t
  | .text _, _ => false
  | _, .text _ => true

def Cell.text? : Cell → Option String
  | .text s => some s
  | _ => none

/-- A text or nothing; fails on anything else. -/
def Cell.optionalText? : Cell → Option (Option String)
  | .null => some none
  | .text s => some (some s)
  | _ => none

def Cell.integer? : Cell → Option Int
  | .integer n => some n
  | _ => none

end Ferry.Store
