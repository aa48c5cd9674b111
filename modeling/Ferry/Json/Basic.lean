import Ferry.Width

/-!
# JSON values

Two views of a JSON document. `Json` is a value that this library writes.
`Draft` is what was understood of a text up to its first error: a reader of
records walks it in the order of the text, so that it meets the same first
problem as someone who reads the text from the left, be it a value of the
wrong kind or the place where the text stops being JSON.
-/

namespace Ferry

/-- A value to be written. Objects keep the order of their fields. -/
inductive Json where
  | null
  | bool (b : Bool)
  | nat (n : Nat)
  | str (s : String)
  | arr (items : List Json)
  | obj (fields : List (String × Json))
deriving Repr, Inhabited

namespace Json

/-- A number as it was written, up to what its readers tell apart. -/
inductive Number where
  /-- An integer without sign, below 2 ^ 64. -/
  | natural (n : Nat)
  /-- A number that no unsigned integer type holds: negative, or with a
  fraction or an exponent, or of 2 ^ 64 and above. -/
  | other
  /-- A number too large for any type. -/
  | overflow
deriving DecidableEq, Repr

/-- What was understood of a text up to its first error. -/
inductive Draft where
  | null
  | bool (b : Bool)
  | num (n : Number)
  | str (s : String)
  /-- A string with half of a surrogate pair: it can be skipped but not read. -/
  | unpaired
  /-- An array; `closed` is false where the text went wrong after its items. -/
  | arr (items : List Draft) (closed : Bool)
  /-- An object; a name that cannot be read is `none`. -/
  | obj (fields : List (Option String × Draft)) (closed : Bool)
  /-- The text went wrong where a value should stand. -/
  | broken
deriving Repr, Inhabited

/-- Why a document was refused. -/
inductive Fault where
  /-- The text is no JSON. -/
  | malformed
  /-- The text is JSON and not of the expected shape. -/
  | mismatch
deriving DecidableEq, Repr

mutual

/-- A value is understood completely by everyone who reads what was written. -/
def draft : Json → Draft
  | .null => .null
  | .bool b => .bool b
  | .nat n => .num (if n < Width.bound64 then .natural n else .other)
  | .str s => .str s
  | .arr items => .arr (draftItems items) true
  | .obj fields => .obj (draftFields fields) true

def draftItems : List Json → List Draft
  | [] => []
  | j :: rest => j.draft :: draftItems rest

def draftFields : List (String × Json) → List (Option String × Draft)
  | [] => []
  | (k, j) :: rest => (some k, j.draft) :: draftFields rest

end

mutual

/-- The text of the value is complete. -/
def Draft.whole : Draft → Bool
  | .arr items closed => Draft.wholeItems items && closed
  | .obj fields closed => Draft.wholeFields fields && closed
  | .broken => false
  | _ => true

def Draft.wholeItems : List Draft → Bool
  | [] => true
  | d :: rest => d.whole && Draft.wholeItems rest

def Draft.wholeFields : List (Option String × Draft) → Bool
  | [] => true
  | (_, d) :: rest => d.whole && Draft.wholeFields rest

end

/-- A field of an object, the last one where the name is repeated. -/
def field? : Json → String → Option Json
  | .obj fields, name => (fields.reverse.find? fun f => f.1 == name).map (·.2)
  | _, _ => none

end Json

end Ferry
