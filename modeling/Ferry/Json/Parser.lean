import Ferry.Json.Lexer

/-!
# Reading JSON

Turns the words of a text into a `Draft`. The grammar is followed up to the
first word that does not fit; there the innermost open value is left unclosed
or marked broken, and so is every value around it.
-/

namespace Ferry.Json

/-- What a reader of one value hands on: the value, and the words after it,
none where the value could not be completed. -/
abbrev Reading (α : Type) := α × Option (List Token)

mutual

/-- Reads one value. The first argument bounds the nesting of calls. -/
def readValue : Nat → List Token → Reading Draft
  | 0, _ => (.broken, none)
  | n + 1, ts =>
    match ts with
    | .null :: rest => (.null, some rest)
    | .bool b :: rest => (.bool b, some rest)
    | .num x :: rest => (.num x, some rest)
    | .str s :: rest => (.str s, some rest)
    | .unpaired :: rest => (.unpaired, some rest)
    | .openArr :: .closeArr :: rest => (.arr [] true, some rest)
    | .openArr :: rest =>
      let (items, rest) := readItems n rest
      (.arr items rest.isSome, rest)
    | .openObj :: .closeObj :: rest => (.obj [] true, some rest)
    | .openObj :: rest =>
      let (fields, rest) := readFields n rest
      (.obj fields rest.isSome, rest)
    | _ => (.broken, none)

/-- Reads the items of an array up to and with its closing bracket. -/
def readItems : Nat → List Token → Reading (List Draft)
  | 0, _ => ([], none)
  | n + 1, ts =>
    match readValue n ts with
    | (d, some (.comma :: rest)) =>
      let (ds, rest) := readItems n rest
      (d :: ds, rest)
    | (d, some (.closeArr :: rest)) => ([d], some rest)
    | (d, _) => ([d], none)

/-- Reads the fields of an object up to and with its closing brace. -/
def readFields : Nat → List Token → Reading (List (Option String × Draft))
  | 0, _ => ([], none)
  | n + 1, ts =>
    let name : Option (Option String × List Token) := match ts with
      | .str s :: .colon :: rest => some (some s, rest)
      | .unpaired :: .colon :: rest => some (none, rest)
      | _ => none
    match name with
    | none => ([], none)
    | some (name, rest) =>
      match readValue n rest with
      | (d, some (.comma :: rest)) =>
        let (fs, rest) := readFields n rest
        ((name, d) :: fs, rest)
      | (d, some (.closeObj :: rest)) => ([(name, d)], some rest)
      | (d, _) => ([(name, d)], none)

end

/-- The value of a whole text, and whether nothing follows it. -/
def readDocument (s : String) : Draft × Bool :=
  let ts := tokens s.toList
  match readValue (2 * ts.length + 1) ts with
  | (d, some []) => (d, true)
  | (d, _) => (d, false)

end Ferry.Json
