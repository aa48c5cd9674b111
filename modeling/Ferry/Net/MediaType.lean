/-!
# Media types

The name of a kind of content: two tokens with a slash between them, where the
second may end in a plus sign and a suffix, and parameters after semicolons.
-/

namespace Ferry.Net.MediaType

def isTokenChar (c : Char) : Bool :=
  c.isAlphanum || "!#$%&'*+-.^_|~\x60".toList.contains c

/-- A character that a value between quotes may hold. -/
def isQuotedChar (c : Char) : Bool :=
  c = '\t' || (0x20 ≤ c.toNat && c.toNat < 0x7f)

/-- The rest after the closing quote of a value: nothing, or what follows the next
semicolon. -/
def afterQuote? (cs : List Char) : Option (List Char) :=
  match cs.dropWhile (· == ' ') with
  | [] => some []
  | ';' :: rest => some rest
  | _ => none

/-- The rest after the value of a parameter. A value between quotes has at least
one character, and the first one may be a quote. -/
def afterValue? : List Char → Option (List Char)
  | '"' :: c :: cs =>
    if isQuotedChar c then
      match cs.dropWhile fun c => isQuotedChar c && c ≠ '"' with
      | '"' :: rest => afterQuote? rest
      | _ => none
    else none
  | cs =>
    match cs.dropWhile isTokenChar with
    | [] => some []
    | ';' :: rest => if (cs.takeWhile isTokenChar).isEmpty then none else some rest
    | _ => none

/-- The parameters after a semicolon are in order. The number bounds how many. -/
def parametersOk : Nat → List Char → Bool
  | 0, _ => false
  | n + 1, cs =>
    let cs := cs.dropWhile (· == ' ')
    if cs.isEmpty then true
    else
      let name := cs.takeWhile isTokenChar
      match cs.dropWhile isTokenChar with
      | '=' :: rest =>
        !name.isEmpty && match afterValue? rest with
          | some rest => parametersOk n rest
          | none => false
      | _ => false

/-- A subtype at its last plus sign, which is not the first character. -/
def splitSuffix (subtype : List Char) : List Char × Option (List Char) :=
  let suffix := (subtype.reverse.takeWhile (· != '+')).reverse
  let front := subtype.take (subtype.length - suffix.length - 1)
  if suffix.length < subtype.length && !front.isEmpty then (front, some suffix)
  else (subtype, none)

/-- The text names JSON, or a kind of content that is written as JSON. -/
def isJson (text : String) : Bool :=
  let cs := text.toList.map Char.toLower
  match cs.dropWhile isTokenChar with
  | '/' :: rest =>
    let subtype := rest.takeWhile isTokenChar
    let (main, suffix) := splitSuffix subtype
    let parameters := match rest.dropWhile isTokenChar with
      | [] => true
      | ';' :: more => !subtype.isEmpty && parametersOk (more.length + 1) more
      | _ => false
    parameters && cs.takeWhile isTokenChar == "application".toList &&
      (main == "json".toList || suffix == some "json".toList)
  | _ => false

end Ferry.Net.MediaType
