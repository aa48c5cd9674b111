import Ferry.Json.Basic

/-!
# Writing JSON

The compact text of a value: no blanks, fields in the order of the value, and
only those characters escaped that a string cannot hold.
-/

namespace Ferry.Json

def lowHexDigit (n : Nat) : Char :=
  if n < 10 then Char.ofNat (48 + n) else Char.ofNat (87 + n)

/-- One character of a string as it is written. -/
def escapeChar (c : Char) : List Char :=
  match c with
  | '"' => ['\\', '"']
  | '\\' => ['\\', '\\']
  | '\x08' => ['\\', 'b']
  | '\x0c' => ['\\', 'f']
  | '\n' => ['\\', 'n']
  | '\r' => ['\\', 'r']
  | '\t' => ['\\', 't']
  | c =>
    if c.toNat < 0x20 then
      ['\\', 'u', '0', '0', lowHexDigit (c.toNat / 16), lowHexDigit (c.toNat % 16)]
    else [c]

def stringText (s : String) : List Char :=
  '"' :: s.toList.flatMap escapeChar ++ ['"']

mutual

def text : Json → List Char
  | .null => ['n', 'u', 'l', 'l']
  | .bool true => ['t', 'r', 'u', 'e']
  | .bool false => ['f', 'a', 'l', 's', 'e']
  | .nat n => Nat.toDigits 10 n
  | .str s => stringText s
  | .arr [] => ['[', ']']
  | .arr (j :: rest) => '[' :: j.text ++ itemsText rest
  | .obj [] => ['\x7b', '\x7d']
  | .obj ((k, j) :: rest) => '\x7b' :: stringText k ++ ':' :: j.text ++ fieldsText rest

/-- The items after the first, and the closing bracket. -/
def itemsText : List Json → List Char
  | [] => [']']
  | j :: rest => ',' :: j.text ++ itemsText rest

/-- The fields after the first, and the closing brace. -/
def fieldsText : List (String × Json) → List Char
  | [] => ['\x7d']
  | (k, j) :: rest => ',' :: stringText k ++ ':' :: j.text ++ fieldsText rest

end

def print (j : Json) : String :=
  String.ofList j.text

end Ferry.Json
