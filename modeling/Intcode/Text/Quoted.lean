import Intcode.Text.Unprintable

/-!
Quoted text, as messages show it: between double quotes, with an escape for the quote, the backslash
and the characters that would not be seen.
-/

namespace Intcode.Text

/-- The form of one character between double quotes; an unprintable one is given by its code point in
lower-case hexadecimal. -/
def escape (c : Char) : List Char :=
  if c = '"' then ['\\', '"']
  else if c = '\\' then ['\\', '\\']
  else if c = '\n' then ['\\', 'n']
  else if c = '\r' then ['\\', 'r']
  else if c = '\t' then ['\\', 't']
  else if c.toNat = 0 then ['\\', '0']
  else if isUnprintable c then "\\u\x7b".toList ++ Nat.toDigits 16 c.toNat ++ "\x7d".toList
  else [c]

/-- `quoted s` is `s` in double quotes, each character in its escaped form. -/
def quoted (s : String) : String :=
  "\"" ++ String.ofList (s.toList.flatMap escape) ++ "\""

end Intcode.Text
