/-!
# Strings and keys of TOML

Four forms of strings: between single or triple quotes, where double quotes
allow escapes and apostrophes do not. Each reader takes the characters after
the opening quotes and answers the text and what follows the closing ones.
-/

namespace Ferry.Toml

def isSpace (c : Char) : Bool :=
  c = ' ' || c = '\t'

/-- The text after its leading blanks. -/
def skipSpaces (cs : List Char) : List Char :=
  cs.dropWhile isSpace

/-- A character that a comment or a string may hold as it is. -/
def isPlain (c : Char) : Bool :=
  c = '\t' || (0x20 ≤ c.toNat && c.toNat ≠ 0x7f)

def hexValue? (c : Char) : Option Nat :=
  if c.isDigit then some (c.toNat - 48)
  else if 'a' ≤ c && c ≤ 'f' then some (c.toNat - 87)
  else if 'A' ≤ c && c ≤ 'F' then some (c.toNat - 55)
  else none

/-- The character with a code given in hexadecimal digits. -/
def codePoint? (digits : List Char) : Option Char := do
  let values ← digits.mapM hexValue?
  let n := values.foldl (fun n v => n * 16 + v) 0
  if n < 0xd800 || (0xe000 ≤ n && n < 0x110000) then some (Char.ofNat n) else none

def escaped? : Char → Option Char
  | 'b' => some '\x08'
  | 't' => some '\t'
  | 'n' => some '\n'
  | 'f' => some '\x0c'
  | 'r' => some '\r'
  | '"' => some '"'
  | '\\' => some '\\'
  | _ => none

/-- Puts a character before a text that was read. -/
def before (c : Char) (r : Option (List Char × List Char)) : Option (List Char × List Char) :=
  r.map fun p => (c :: p.1, p.2)

/-- A character of a string, if it is one, before the text that was read. -/
def beforeAny (c? : Option Char) (r : Option (List Char × List Char)) :
    Option (List Char × List Char) :=
  c?.bind fun c => before c r

/-- A string on one line between double quotes. -/
def basic : List Char → Option (List Char × List Char)
  | [] => none
  | '"' :: rest => some ([], rest)
  | '\\' :: 'u' :: a :: b :: c :: d :: rest => beforeAny (codePoint? [a, b, c, d]) (basic rest)
  | '\\' :: 'U' :: a :: b :: c :: d :: e :: f :: g :: h :: rest =>
    beforeAny (codePoint? [a, b, c, d, e, f, g, h]) (basic rest)
  | '\\' :: c :: rest => beforeAny (escaped? c) (basic rest)
  | c :: rest => if isPlain c then before c (basic rest) else none

/-- A string on one line between apostrophes. -/
def literal : List Char → Option (List Char × List Char)
  | [] => none
  | '\'' :: rest => some ([], rest)
  | c :: rest => if isPlain c then before c (literal rest) else none

/-- Quotes inside a string of several lines. -/
def withQuotes (quote : Char) (n : Nat) (r : Option (List Char × List Char)) :
    Option (List Char × List Char) :=
  r.map fun p => (List.replicate n quote ++ p.1, p.2)

/-- Where a reader of several lines stands. -/
inductive LineMode where
  | text
  /-- After so many quotes in a row. -/
  | quotes (n : Nat)
  /-- After a backslash, where the line still has to end. -/
  | lineEnd
  /-- After a line that a backslash joined to the next text. -/
  | joined
deriving DecidableEq, Repr

/-- A string of several lines between triple double quotes. A backslash at the
end of a line joins the next text to the one before it. Up to two more quotes
may stand right before the closing ones. -/
def basicLines : LineMode → List Char → Option (List Char × List Char)
  | .quotes n, '"' :: rest =>
    if n = 4 then some (['"', '"'], rest) else basicLines (.quotes (n + 1)) rest
  | .text, '"' :: rest => basicLines (.quotes 1) rest
  | .joined, '"' :: rest => basicLines (.quotes 1) rest
  | .quotes n, cs =>
    if 3 ≤ n then some (List.replicate (n - 3) '"', cs)
    else match cs with
      | [] => none
      | '\\' :: 'u' :: a :: b :: c :: d :: rest =>
        withQuotes '"' n (beforeAny (codePoint? [a, b, c, d]) (basicLines .text rest))
      | '\\' :: 'U' :: a :: b :: c :: d :: e :: f :: g :: h :: rest =>
        withQuotes '"' n
          (beforeAny (codePoint? [a, b, c, d, e, f, g, h]) (basicLines .text rest))
      | '\\' :: c :: rest =>
        if isSpace c || c = '\n' || c = '\r' then
          withQuotes '"' n (basicLines .lineEnd (c :: rest))
        else withQuotes '"' n (beforeAny (escaped? c) (basicLines .text rest))
      | '\r' :: '\n' :: rest => withQuotes '"' n (before '\n' (basicLines .text rest))
      | c :: rest =>
        if isPlain c || c = '\n' then withQuotes '"' n (before c (basicLines .text rest)) else none
  | .lineEnd, cs => match cs with
    | '\n' :: rest => basicLines .joined rest
    | '\r' :: '\n' :: rest => basicLines .joined rest
    | c :: rest => if isSpace c then basicLines .lineEnd rest else none
    | [] => none
  | mode, cs => match cs with
    | [] => none
    | '\\' :: 'u' :: a :: b :: c :: d :: rest =>
      beforeAny (codePoint? [a, b, c, d]) (basicLines .text rest)
    | '\\' :: 'U' :: a :: b :: c :: d :: e :: f :: g :: h :: rest =>
      beforeAny (codePoint? [a, b, c, d, e, f, g, h]) (basicLines .text rest)
    | '\\' :: c :: rest =>
      if isSpace c || c = '\n' || c = '\r' then basicLines .lineEnd (c :: rest)
      else beforeAny (escaped? c) (basicLines .text rest)
    | '\r' :: '\n' :: rest =>
      if mode = .joined then basicLines .joined rest else before '\n' (basicLines .text rest)
    | c :: rest =>
      if mode = .joined && (isSpace c || c = '\n') then basicLines .joined rest
      else if isPlain c || c = '\n' then before c (basicLines .text rest)
      else none
termination_by _ cs => cs.length

/-- A string of several lines between triple apostrophes, after so many of them
in a row. -/
def literalLines : (quotes : Nat) → List Char → Option (List Char × List Char)
  | n, '\'' :: rest =>
    if n = 4 then some (['\'', '\''], rest) else literalLines (n + 1) rest
  | n, cs =>
    if 3 ≤ n then some (List.replicate (n - 3) '\'', cs)
    else match cs with
      | [] => none
      | '\r' :: '\n' :: rest => withQuotes '\'' n (before '\n' (literalLines 0 rest))
      | c :: rest =>
        if isPlain c || c = '\n' then withQuotes '\'' n (before c (literalLines 0 rest)) else none
termination_by _ cs => cs.length

/-- A line break right after the opening quotes is no part of the string. -/
def skipFirstBreak : List Char → List Char
  | '\n' :: rest => rest
  | '\r' :: '\n' :: rest => rest
  | cs => cs

/-- A string of any form. -/
def string : List Char → Option (String × List Char)
  | '"' :: '"' :: '"' :: rest => (basicLines .text (skipFirstBreak rest)).map toText
  | '"' :: rest => (basic rest).map toText
  | '\'' :: '\'' :: '\'' :: rest => (literalLines 0 (skipFirstBreak rest)).map toText
  | '\'' :: rest => (literal rest).map toText
  | _ => none
where
  toText (p : List Char × List Char) : String × List Char := (String.ofList p.1, p.2)

/-! ## Keys -/

def isBareKeyChar (c : Char) : Bool :=
  c.isAlphanum || c = '_' || c = '-'

/-- One part of a key: bare, or a string on one line. -/
def simpleKey (cs : List Char) : Option (String × List Char) :=
  match cs with
  | '"' :: rest => (basic rest).map fun p => (String.ofList p.1, p.2)
  | '\'' :: rest => (literal rest).map fun p => (String.ofList p.1, p.2)
  | cs =>
    let name := cs.takeWhile isBareKeyChar
    if name.isEmpty then none else some (String.ofList name, cs.dropWhile isBareKeyChar)

/-- The most parts that a key may have. -/
def maxKeyParts : Nat := 79

/-- The parts of a key with dots between them; blanks may stand around each. At
most `parts` of them are read. -/
def keyParts : (parts : Nat) → List Char → Option (List String × List Char)
  | 0, _ => none
  | n + 1, cs => do
    let (name, cs) ← simpleKey (skipSpaces cs)
    match skipSpaces cs with
    | '.' :: rest =>
      let (more, rest) ← keyParts n rest
      some (name :: more, rest)
    | rest => some ([name], rest)

def key (cs : List Char) : Option (List String × List Char) :=
  keyParts maxKeyParts cs

end Ferry.Toml
