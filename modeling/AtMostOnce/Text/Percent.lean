/-
Text in which a percent sign and two hexadecimal digits stand for a byte.

A percent sign without two digits behind it stands for itself, and so does any other
character, by its bytes in UTF-8.
-/
import AtMostOnce.Text.Hex

namespace AtMostOnce.Text.Percent

/-- The bytes that a text stands for. -/
def decode : List Char → List UInt8
  | '%' :: h :: l :: rest =>
    match hexValue? h, hexValue? l with
    | some h, some l => UInt8.ofNat (h * 16 + l) :: decode rest
    | _, _ => UInt8.ofNat '%'.toNat :: decode (h :: l :: rest)
  | c :: rest => (String.singleton c).toUTF8.toList ++ decode rest
  | [] => []

/-- The text in UTF-8 that a text stands for, if its bytes are one. -/
def text? (cs : List Char) : Option String := String.fromUTF8? ⟨(decode cs).toArray⟩

end AtMostOnce.Text.Percent
