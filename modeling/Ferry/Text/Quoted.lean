import Ferry.Text.Blank
import Ferry.Text.CharacterTable

/-!
# Quoted text

How an untrusted string is shown inside an error message: between double
quotes, with every character that a reader could not see, or could mistake
for part of the one before it, replaced by an escape.
-/

namespace Ferry.Text

/-- A character that stands for itself inside quotes. -/
def isVisible (c : Char) : Bool :=
  !inRanges extendingRanges c.toNat && !inRanges invisibleRanges c.toNat

/-- The hexadecimal digits of a number, lower case, at least one. -/
def hexDigits (n : Nat) : List Char :=
  Nat.toDigits 16 n

/-- One character as it is written between the quotes. -/
def escape (c : Char) : List Char :=
  if c = '\x00' then ['\\', '0']
  else if c = '\t' then ['\\', 't']
  else if c = '\n' then ['\\', 'n']
  else if c = '\r' then ['\\', 'r']
  else if c = '"' then ['\\', '"']
  else if c = '\\' then ['\\', '\\']
  else if isVisible c then [c]
  else ['\\', 'u', '\x7b'] ++ hexDigits c.toNat ++ ['\x7d']

/-- The text between double quotes, escaped character by character. -/
def quoted (s : String) : String :=
  String.ofList ('"' :: s.toList.flatMap escape ++ ['"'])

end Ferry.Text
