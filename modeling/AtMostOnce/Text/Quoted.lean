/-
Strings between double quotes, for messages that show a value.

A backslash, a double quote, a tab, a newline, a carriage return and the null
character have short escapes; a character that would not show as itself is
written by its code point, `\u{…}` in hexadecimal.
-/
import AtMostOnce.Text.Hidden

namespace AtMostOnce.Text

/-- A natural in lower-case hexadecimal. -/
def hexadecimal (n : Nat) : List Char := Nat.toDigits 16 n

/-- One character between quotes. -/
def quotedChar (c : Char) : List Char :=
  if c = '"' then ['\\', '"']
  else if c = '\\' then ['\\', '\\']
  else if c = '\n' then ['\\', 'n']
  else if c = '\r' then ['\\', 'r']
  else if c = '\t' then ['\\', 't']
  else if c = '\x00' then ['\\', '0']
  else if !isHidden c.toNat then [c]
  else '\\' :: 'u' :: '\x7b' :: (hexadecimal c.toNat ++ ['\x7d'])

/-- A string between quotes. -/
def quoted (s : String) : String :=
  String.ofList ('"' :: (s.toList.flatMap quotedChar ++ ['"']))

end AtMostOnce.Text
