/-!
# C string and character literals

A string literal holds the bytes of the UTF-8 encoding. Bytes outside the printable range are
written as three octal digits, which cannot absorb a digit that follows; the question mark is
escaped so that no trigraph arises.
-/

namespace CBackend.Text

/-- The character of an octal, decimal or hexadecimal digit. -/
def digit (n : Nat) : Char :=
  Nat.digitChar n

/-- One byte inside a C string literal. -/
def cStringByte (b : UInt8) : List Char :=
  if b = 0x22 then ['\\', '"']
  else if b = 0x5c then ['\\', '\\']
  else if b = 0x3f then ['\\', '?']
  else if b = 0x0a then ['\\', 'n']
  else if b = 0x09 then ['\\', 't']
  else if 0x20 ≤ b && b ≤ 0x7e then [Char.ofNat b.toNat]
  else ['\\', digit (b.toNat / 64), digit (b.toNat / 8 % 8), digit (b.toNat % 8)]

/-- The bytes of the UTF-8 encoding of a string. -/
def utf8Bytes (s : String) : List UInt8 :=
  s.toUTF8.toList

/-- The text between the quotes of the C literal for a string. -/
def cString (s : String) : String :=
  String.ofList ((utf8Bytes s).flatMap cStringByte)

private def twoHexDigits (n : Nat) : List Char :=
  [digit (n / 16), digit (n % 16)]

private def leftPadded (width : Nat) (cs : List Char) : List Char :=
  List.replicate (width - cs.length) '0' ++ cs

/-- The escape of a character that cannot stand for itself in a C character constant. -/
def cCharEscape? (c : Char) : Option (List Char) :=
  match c with
  | '\'' => some ['\\', '\'']
  | '"' => some ['\\', '"']
  | '\\' => some ['\\', '\\']
  | '\x07' => some ['\\', 'a']
  | '\x08' => some ['\\', 'b']
  | '\x0c' => some ['\\', 'f']
  | '\n' => some ['\\', 'n']
  | '\r' => some ['\\', 'r']
  | '\t' => some ['\\', 't']
  | '\x0b' => some ['\\', 'v']
  | c =>
    if c.toNat < 0x20 || c.toNat = 0x7f then some ('\\' :: 'x' :: twoHexDigits c.toNat) else none

/-- A C constant with the code point of a character: a character constant within ASCII, four or more
hexadecimal digits outside of it. -/
def cChar (c : Char) : String :=
  String.ofList <|
    match cCharEscape? c with
    | some escape => '\'' :: (escape ++ ['\''])
    | none =>
      if c.toNat < 0x80 then ['\'', c, '\'']
      else '0' :: 'x' :: leftPadded 4 (Nat.toDigits 16 c.toNat)

end CBackend.Text
