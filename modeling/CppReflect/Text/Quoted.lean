import CppReflect.Text.Printable

/-!
# Texts in quotes

A text is shown in double quotes with escapes: the quote, the backslash and common control
characters have short ones, and any other character that is not printable is shown by its code
point.
-/

namespace CppReflect.Text

/-- A character as it is shown in quotes. -/
def shown (c : Char) : List Char :=
  if c = '"' then ['\\', '"']
  else if c = '\\' then ['\\', '\\']
  else if c = '\n' then ['\\', 'n']
  else if c = '\r' then ['\\', 'r']
  else if c = '\t' then ['\\', 't']
  else if c.toNat = 0 then ['\\', '0']
  else if isPrintable c then [c]
  else ['\\', 'u', '{'] ++ Nat.toDigits 16 c.toNat ++ ['}']

/-- A text as it is shown. -/
def quoted (s : String) : String :=
  String.ofList ('"' :: s.toList.flatMap shown ++ ['"'])

end CppReflect.Text
