import Ferry.Toml.Scalar
import Ferry.Toml.Table

/-!
# Documents

A document is a list of lines: headers that open a table, keys with values that
go into the table opened last, and comments. Its content is handed on in the
form in which JSON documents are read, so that one reader of records serves
both.
-/

namespace Ferry.Toml

/-- The text after a comment, up to the end of its line. -/
def afterComment? : List Char → Option (List Char)
  | [] => some []
  | '\n' :: rest => some ('\n' :: rest)
  | '\r' :: '\n' :: rest => some ('\r' :: '\n' :: rest)
  | c :: rest => if isPlain c then afterComment? rest else none

/-- The text after blanks, line breaks and comments. -/
def skipLines? : (inComment : Bool) → List Char → Option (List Char)
  | _, [] => some []
  | _, '\n' :: rest => skipLines? false rest
  | _, '\r' :: '\n' :: rest => skipLines? false rest
  | true, c :: rest => if isPlain c then skipLines? true rest else none
  | false, '#' :: rest => skipLines? true rest
  | false, c :: rest => if isSpace c then skipLines? false rest else some (c :: rest)

/-- A path and the last part of a key. -/
def splitLast : List String → List String × String
  | [] => ([], "")
  | [name] => ([], name)
  | name :: rest => let (path, last) := splitLast rest; (name :: path, last)

/-- Values are nested less deep than this. -/
def nestingLimit : Nat := 80

mutual

/-- A value. The first argument bounds the length of the text, the second the
nesting. -/
def value : Nat → Nat → List Char → Option (Json.Draft × List Char)
  | 0, _, _ => none
  | n + 1, depth, cs =>
    match cs with
    | '[' :: rest =>
      if depth ≤ 1 then none
      else (arrayItems n (depth - 1) rest).map fun p => (.arr p.1 true, p.2)
    | '\x7b' :: rest =>
      if depth ≤ 1 then none
      else match skipSpaces rest with
        | '\x7d' :: rest => some (.obj [] true, rest)
        | rest => (inlineEntries n (depth - 1) .written rest).map fun p => (p.1.draft, p.2)
    | '"' :: _ => (string cs).map fun p => (.str p.1, p.2)
    | '\'' :: _ => (string cs).map fun p => (.str p.1, p.2)
    | cs => scalar cs

/-- The items of an array up to and with its closing bracket. -/
def arrayItems : Nat → Nat → List Char → Option (List Json.Draft × List Char)
  | 0, _, _ => none
  | n + 1, depth, cs => do
    match ← skipLines? false cs with
    | ']' :: rest => some ([], rest)
    | cs =>
      let (d, cs) ← value n depth cs
      match ← skipLines? false cs with
      | ',' :: rest =>
        let (ds, rest) ← arrayItems n depth rest
        some (d :: ds, rest)
      | ']' :: rest => some ([d], rest)
      | _ => none

/-- The entries of a table in braces up to and with its closing brace. -/
def inlineEntries : Nat → Nat → Table → List Char → Option (Table × List Char)
  | 0, _, _, _ => none
  | n + 1, depth, t, cs => do
    let (names, cs) ← key cs
    let '=' :: cs := cs | none
    let (d, cs) ← value n depth (skipSpaces cs)
    let (path, name) := splitLast names
    let t ← t.add path name d
    match skipSpaces cs with
    | ',' :: rest => inlineEntries n depth t rest
    | '\x7d' :: rest => some (t, rest)
    | _ => none

end

/-- The text after the end of a line, which may hold a comment. -/
def endOfLine? (cs : List Char) : Option (List Char) := do
  let cs ← match skipSpaces cs with
    | '#' :: rest => afterComment? rest
    | cs => some cs
  match cs with
  | [] => some []
  | '\n' :: rest => some rest
  | '\r' :: '\n' :: rest => some rest
  | _ => none

/-- How the open table was opened. -/
inductive Opening where
  | root
  | header (path : List String) (name : String)
  | item (path : List String) (name : String)

/-- What has been read: all closed tables, and the open one. -/
structure Progress where
  closed : Table
  opening : Opening
  current : Table

/-- Puts the open table into its place. -/
def Progress.close (p : Progress) : Option Table :=
  match p.opening with
  | .root => some p.current
  | .header path name => p.closed.putBack path name p.current
  | .item path name => p.closed.putItem path name p.current

/-- Reads a header after its opening bracket. -/
def header (p : Progress) (cs : List Char) : Option (Progress × List Char) := do
  let closed ← p.close
  match cs with
  | '[' :: cs =>
    let (names, cs) ← key cs
    let ']' :: ']' :: cs := cs | none
    let (path, name) := splitLast names
    let (current, closed) ← closed.takeItem path name
    some (⟨closed, .item path name, current⟩, cs)
  | cs =>
    let (names, cs) ← key cs
    let ']' :: cs := cs | none
    let (path, name) := splitLast names
    let (current, closed) ← closed.take path name
    some (⟨closed, .header path name, current⟩, cs)

/-- Reads a key and its value. -/
def entry (p : Progress) (cs : List Char) : Option (Progress × List Char) := do
  let (names, cs) ← key cs
  let '=' :: cs := cs | none
  let cs := skipSpaces cs
  let (d, cs) ← value (cs.length + 1) nestingLimit cs
  let (path, name) := splitLast names
  let current ← p.current.add path name d
  some ({ p with current }, cs)

/-- Reads the lines of a document; the number bounds how many. -/
def lines : Nat → Progress → List Char → Option Progress
  | 0, _, _ => none
  | _, p, [] => some p
  | n + 1, p, cs => do
    let (p, cs) ← match skipSpaces cs with
      | [] => some (p, [])
      | '[' :: rest => header p rest
      | '#' :: rest => some (p, '#' :: rest)
      | '\n' :: rest => some (p, '\n' :: rest)
      | '\r' :: rest => some (p, '\r' :: rest)
      | cs => entry p cs
    lines n p (← endOfLine? cs)

/-- A mark that some editors put before a text. -/
def skipMark : List Char → List Char
  | '\uFEFF' :: rest => rest
  | cs => cs

/-- The content of a document. -/
def readDocument? (text : String) : Option Json.Draft := do
  let cs := skipMark text.toList
  let p ← lines (cs.length + 1) ⟨.written, .root, .written⟩ cs
  let root ← p.close
  some root.draft

end Ferry.Toml
