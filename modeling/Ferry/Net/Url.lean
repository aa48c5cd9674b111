import Ferry.Net.Utf8

/-!
# Addresses of the web

How the text of an address becomes a request: blanks around it and line breaks
in it are dropped, a backslash counts as a slash, dots in the path are
followed, and what a path cannot hold is written with percent signs. What
follows the number sign stays at home.
-/

namespace Ferry.Net

structure Url where
  secure : Bool
  /-- The host, with the port if one is given. -/
  authority : String
  /-- The path, with a slash in front of each segment. -/
  path : String
  query : Option String
deriving DecidableEq, Repr

namespace Url

def isSlash (c : Char) : Bool :=
  c = '/' || c = '\\'

/-- The characters that a path holds as they are. -/
def staysInPath (c : Char) : Bool :=
  0x21 ≤ c.toNat && c.toNat < 0x7f && !" \"#<>?\x60\x7b\x7d^".toList.contains c

def upperHexDigit (n : Nat) : Char :=
  if n < 10 then Char.ofNat (48 + n) else Char.ofNat (55 + n)

/-- The bytes of a character, each behind a percent sign. -/
def percentEncode (c : Char) : List Char :=
  (Utf8.encodeChar c).flatMap fun b => ['%', upperHexDigit (b / 16), upperHexDigit (b % 16)]

def encodePath (cs : List Char) : List Char :=
  cs.flatMap fun c => if staysInPath c then [c] else percentEncode c

/-- The pieces of a path between its slashes. -/
def segments : List Char → List (List Char)
  | [] => [[]]
  | c :: cs =>
    if isSlash c then [] :: segments cs
    else match segments cs with
      | [] => [[c]]
      | p :: ps => (c :: p) :: ps

/-- The segment with its dots plain: a dot may be written with a percent sign. -/
def plainDots : List Char → List Char
  | '%' :: '2' :: 'e' :: rest => '.' :: plainDots rest
  | '%' :: '2' :: 'E' :: rest => '.' :: plainDots rest
  | c :: rest => c :: plainDots rest
  | [] => []

/-- Follows the dots: one stays, two go up. At the end of a path they leave an
empty segment. The segments so far come last first. -/
def followDots : (above : List (List Char)) → List (List Char) → List (List Char)
  | above, [] => above.reverse
  | above, [s] =>
    if plainDots s = ['.'] then ([] :: above).reverse
    else if plainDots s = ['.', '.'] then ([] :: above.drop 1).reverse
    else (s :: above).reverse
  | above, s :: rest =>
    if plainDots s = ['.'] then followDots above rest
    else if plainDots s = ['.', '.'] then followDots (above.drop 1) rest
    else followDots (s :: above) rest

/-- The normal form of a path, which may start with a slash or not. -/
def normalPath (cs : List Char) : List Char :=
  let cs := match cs with
    | c :: rest => if isSlash c then rest else c :: rest
    | [] => []
  (followDots [] (segments cs)).flatMap fun s => '/' :: encodePath s

/-- The text after a scheme and its colon. -/
def afterScheme? (cs : List Char) : Option (Bool × List Char) :=
  let scheme := (cs.takeWhile (· != ':')).map Char.toLower
  let rest := (cs.dropWhile (· != ':')).drop 1
  if !cs.contains ':' then none
  else if scheme = ['h', 't', 't', 'p'] then some (false, rest)
  else if scheme = ['h', 't', 't', 'p', 's'] then some (true, rest)
  else none

/-- A character that can stand around an address. -/
def isOuter (c : Char) : Bool :=
  c.toNat ≤ 0x20

/-- Reads an address of the web. -/
def parse? (text : String) : Option Url := do
  let cs := (text.toList.dropWhile isOuter).reverse.dropWhile isOuter |>.reverse
  let cs := cs.filter fun c => c ≠ '\t' && c ≠ '\n' && c ≠ '\r'
  let (secure, cs) ← afterScheme? cs
  let cs := (cs.dropWhile isSlash).takeWhile (· != '#')
  let authority := cs.takeWhile fun c => !isSlash c && c ≠ '?'
  let cs := cs.drop authority.length
  let path := cs.takeWhile (· != '?')
  let query := match cs.dropWhile (· != '?') with
    | '?' :: q => some (String.ofList q)
    | _ => none
  if authority.isEmpty then none
  else some ⟨secure, String.ofList authority, String.ofList (normalPath path), query⟩

/-- What is asked of the host: the path, and the query if there is one. -/
def target (u : Url) : String :=
  match u.query with
  | none => u.path
  | some q => u.path ++ "?" ++ q

end Url

end Ferry.Net
