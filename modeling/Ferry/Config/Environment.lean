import Ferry.Json.Basic
import Ferry.Text.Blank
import Ferry.Toml.Text
import Ferry.Width

/-!
# Configuration by environment variables

A variable of the program names a part and a field of the configuration, with
two underscores between them. Its value may be a number, a truth value, a
quoted text, an array in brackets or a record in braces; what is none of these
is a text as it stands.
-/

namespace Ferry.Config

open Json (Draft)

/-! ## Values -/

/-- A character that ends a value inside brackets or braces. -/
def isSeparator (c : Char) : Bool :=
  c = ',' || c = '[' || c = ']' || c = '\x7b' || c = '\x7d'

def isAsciiBlank (c : Char) : Bool :=
  c = ' ' || c = '\t' || c = '\n' || c = '\r' || c = '\x0c'

def skipBlank (cs : List Char) : List Char :=
  cs.dropWhile isAsciiBlank

/-- A text between double quotes with its escapes. -/
def quotedText : List Char → Option (List Char × List Char) :=
  Toml.basic

/-- The text is a decimal number with a point. -/
def isDecimal (cs : List Char) : Bool :=
  let cs := match cs with
    | '+' :: rest => rest
    | '-' :: rest => rest
    | cs => cs
  let whole := cs.takeWhile Char.isDigit
  match cs.dropWhile Char.isDigit with
  | '.' :: rest =>
    let frac := rest.takeWhile Char.isDigit
    let exponentOk := match rest.dropWhile Char.isDigit with
      | [] => true
      | e :: rest =>
        let ds := match rest with
          | '+' :: ds => ds
          | '-' :: ds => ds
          | ds => ds
        (e = 'e' || e = 'E') && !ds.isEmpty && ds.all Char.isDigit
    !(whole.isEmpty && frac.isEmpty) && exponentOk
  | _ => false

/-- The integer that a text is, after a sign if one likes. -/
def integer? (cs : List Char) : Option Int :=
  let value : List Char → Option Nat := fun ds =>
    if ds.isEmpty || !ds.all Char.isDigit then none
    else some (ds.foldl (fun n c => n * 10 + (c.toNat - 48)) 0)
  match cs with
  | '-' :: ds => (value ds).map fun n => -(n : Int)
  | '+' :: ds => (value ds).map fun n => (n : Int)
  | ds => (value ds).map fun n => (n : Int)

/-- What a text without quotes, brackets and braces is. -/
def plainValue (cs : List Char) : Draft :=
  let cs := Text.trim cs
  if isDecimal cs then .num .other
  else match integer? cs with
    | some n =>
      if 0 ≤ n && n < Width.bound64 then .num (.natural n.toNat)
      else if n < 0 && Width.isSigned64 n then .num .other
      else .str (String.ofList cs)
    | none => .str (String.ofList cs)

def isKeyChar (c : Char) : Bool :=
  c.isAlphanum || c = '_' || c = '-'

/-- The name of a field in braces. -/
def fieldName (cs : List Char) : Option (String × List Char) :=
  match cs with
  | '"' :: rest => (quotedText rest).map fun p => (String.ofList p.1, p.2)
  | cs =>
    let name := cs.takeWhile isKeyChar
    if name.isEmpty then none else some (String.ofList name, cs.dropWhile isKeyChar)

/-- A record with one more field; a later field of a name replaces an earlier one. -/
def setField (fields : List (Option String × Draft)) (name : String) (d : Draft) :
    List (Option String × Draft) :=
  (fields.filter fun f => f.1 != some name) ++ [(some name, d)]

mutual

/-- A value and the text after it; the number bounds the calls. -/
def readVariable : Nat → List Char → Option (Draft × List Char)
  | 0, _ => none
  | n + 1, cs =>
    let result : Option (Draft × List Char) := match skipBlank cs with
      | 't' :: 'r' :: 'u' :: 'e' :: rest => some (.bool true, rest)
      | 'f' :: 'a' :: 'l' :: 's' :: 'e' :: rest => some (.bool false, rest)
      | '[' :: rest => (readItems n rest).map fun p => (.arr p.1 true, p.2)
      | '\x7b' :: rest => (readFields n [] rest).map fun p => (.obj p.1 true, p.2)
      | '"' :: rest => (quotedText rest).map fun p => (.str (String.ofList p.1), p.2)
      | '\'' :: c :: '\'' :: rest => some (.str (String.ofList [c]), rest)
      | '\'' :: _ => none
      | cs =>
        let text := cs.takeWhile fun c => !isSeparator c
        some (plainValue text, cs.dropWhile fun c => !isSeparator c)
    result.map fun p => (p.1, skipBlank p.2)

/-- The items up to and with a closing bracket. A bracket closes the list only where
an item could start at once: after a blank an empty text stands before it. -/
def readItems : Nat → List Char → Option (List Draft × List Char)
  | 0, _ => none
  | n + 1, cs =>
    match cs with
    | ']' :: rest => some ([], rest)
    | cs => do
      let (d, cs) ← readVariable n cs
      match cs with
      | ',' :: rest =>
        let (ds, rest) ← readItems n rest
        some (d :: ds, rest)
      | ']' :: rest => some ([d], rest)
      | _ => none

/-- The fields up to and with a closing brace, after those read before. -/
def readFields : Nat → List (Option String × Draft) → List Char →
    Option (List (Option String × Draft) × List Char)
  | 0, _, _ => none
  | n + 1, fields, cs =>
    match cs with
    | '\x7d' :: rest => some (fields, rest)
    | cs => do
      let (name, cs) ← fieldName (skipBlank cs)
      let '=' :: cs := skipBlank cs | none
      let (d, cs) ← readVariable n cs
      let fields := setField fields name d
      match cs with
      | ',' :: rest => readFields n fields rest
      | '\x7d' :: rest => some (fields, rest)
      | _ => none

end

/-- The value of a variable. -/
def variableValue (text : String) : Draft :=
  match readVariable (2 * text.length + 2) text.toList with
  | some (d, []) => d
  | _ => .str text

/-! ## Names -/

/-- What the names of the program's variables begin with, in any case. -/
def variableMark : String := "courier_"

/-- The text with a point in the place of every two underscores. -/
def pointed : List Char → List Char
  | '_' :: '_' :: rest => '.' :: pointed rest
  | c :: rest => c :: pointed rest
  | [] => []

def splitPoints : List Char → List (List Char)
  | [] => [[]]
  | '.' :: cs => [] :: splitPoints cs
  | c :: cs => match splitPoints cs with
    | [] => [[c]]
    | p :: ps => (c :: p) :: ps

/-- The names of parts and field that a variable sets, if it is one of the
program's variables and none of the names is empty. -/
def variablePath? (name : String) : Option (List String) :=
  let cs := name.toList.map Char.toLower
  let mark := variableMark.toList
  if mark.isPrefixOf cs then
    let parts := splitPoints (pointed (cs.drop mark.length))
    if parts.any List.isEmpty then none else some (parts.map String.ofList)
  else none

/-! ## Merging -/

/-- A value inside records, one for each name. -/
def nested : List String → Draft → Draft
  | [], d => d
  | name :: path, d => .obj [(some name, nested path d)] true

mutual

/-- The value `top` put over another: records are merged field by field. -/
def merge (base top : Draft) : Draft :=
  match base, top with
  | .obj fields _, .obj more _ => .obj (mergeFields fields more) true
  | _, top => top

/-- Puts fields over those of a record, one after the other. -/
def mergeFields (fields : List (Option String × Draft)) :
    List (Option String × Draft) → List (Option String × Draft)
  | [] => fields
  | (name, d) :: rest =>
    let d := match fields.find? fun f => f.1 == name with
      | some (_, old) => merge old d
      | none => d
    mergeFields ((fields.filter fun f => f.1 != name) ++ [(name, d)]) rest

end

/-- The record that variables make up, where later ones are put over earlier ones. -/
def ofVariables (environment : List (String × String)) : Draft :=
  environment.foldl (fun d v =>
    match variablePath? v.1 with
    | none => d
    | some path => merge d (nested path (variableValue v.2))) (.obj [] true)

end Ferry.Config
