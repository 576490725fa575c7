/-
  StageRig.Text.Quoted — texts shown in quotes, for messages.

  The backslash, the given quote marks and the common control characters are escaped by
  a letter, other characters without a glyph by their number in hexadecimal.
-/

import StageRig.Text.Unprintable

namespace StageRig.Text

/-- The written form of a character in a text where the characters `marks` are escaped. -/
def shown (marks : List Char) (c : Char) : List Char :=
  if c = '\x00' then ['\\', '0']
  else if c = '\t' then ['\\', 't']
  else if c = '\r' then ['\\', 'r']
  else if c = '\n' then ['\\', 'n']
  else if c = '\\' ∨ c ∈ marks then ['\\', c]
  else if isUnprintable c then ['\\', 'u', '\x7b'] ++ Nat.toDigits 16 c.toNat ++ ['\x7d']
  else [c]

/-- A text in double quotes. -/
def quoted (marks : List Char) (s : String) : String :=
  String.ofList ('"' :: s.toList.flatMap (shown marks) ++ ['"'])

end StageRig.Text
