import CBackend.Text.Unprintable

/-!
# Quoted text in diagnostics

Characters and strings as diagnostics show them: between quotes, with the usual escapes for the
quote, the backslash and four control characters, and with the code point in hexadecimal for a
character that has no glyph of its own.
-/

namespace CBackend.Text

/-- A natural number in lower-case hexadecimal digits. -/
def hex (n : Nat) : List Char :=
  Nat.toDigits 16 n

/-- A character inside quotes of the given kind. -/
def quotedWith (quote c : Char) : List Char :=
  if c = quote || c = '\\' then ['\\', c]
  else if c.toNat = 0 then ['\\', '0']
  else if c = '\t' then ['\\', 't']
  else if c = '\r' then ['\\', 'r']
  else if c = '\n' then ['\\', 'n']
  else if isUnprintable c then '\\' :: 'u' :: '\x7b' :: (hex c.toNat ++ ['\x7d'])
  else [c]

/-- A character between single quotes. -/
def quotedChar (c : Char) : String :=
  String.ofList ('\'' :: (quotedWith '\'' c ++ ['\'']))

/-- A string between double quotes. -/
def quotedString (s : String) : String :=
  String.ofList ('"' :: (s.toList.flatMap (quotedWith '"') ++ ['"']))

end CBackend.Text
