/-
Compact JSON text.

`render` writes a value without any blank, members in the order in which they are
listed.  A string is written with the seven short escapes, `\u00xx` for the other
control characters, and every other character as itself.  `canonical` is the text
of the value with its keys in order at every depth, so two values that differ in
key order only have one canonical text.
-/
import AtMostOnce.Binary64
import AtMostOnce.Json.Value
import AtMostOnce.Text.Decimal
import AtMostOnce.Text.Hex

namespace AtMostOnce.Json

open AtMostOnce.Text

/-! ### Strings -/

/-- How one character stands inside a string literal. -/
def escapeChar (c : Char) : List Char :=
  if c = '"' then ['\\', '"']
  else if c = '\\' then ['\\', '\\']
  else if c = '\n' then ['\\', 'n']
  else if c = '\r' then ['\\', 'r']
  else if c = '\t' then ['\\', 't']
  else if c = '\x08' then ['\\', 'b']
  else if c = '\x0c' then ['\\', 'f']
  else if c.toNat < 0x20 then
    ['\\', 'u', '0', '0', hexDigit (c.toNat / 16), hexDigit (c.toNat % 16)]
  else [c]

/-- The inside of a string literal. -/
def escape : List Char → List Char
  | [] => []
  | c :: cs => escapeChar c ++ escape cs

/-- A string literal. -/
def quote (s : String) : List Char := '"' :: (escape s.toList ++ ['"'])

/-! ### Numbers -/

/-- The exponent of scientific notation, with its sign always written. -/
def exponentText (e : Int) : List Char :=
  if 0 ≤ e then '+' :: Nat.toDigits 10 e.toNat else '-' :: Nat.toDigits 10 (-e).toNat

/--
Decimal digits `d` with the point at place `p`.  Up to sixteen places before the
point and four zeros after it are written out; beyond that the number is in
scientific notation.  A number without a fraction ends in `.0`.
-/
def placePoint (digits : List Char) (p : Int) : List Char :=
  let count : Int := digits.length
  if count ≤ p ∧ p ≤ 16 then
    digits ++ List.replicate (p - count).toNat '0' ++ ['.', '0']
  else if 0 < p ∧ p ≤ 16 then
    digits.take p.toNat ++ '.' :: digits.drop p.toNat
  else if -5 < p ∧ p ≤ 0 then
    '0' :: '.' :: (List.replicate (-p).toNat '0' ++ digits)
  else
    match digits with
    | [d] => d :: 'e' :: exponentText (p - 1)
    | d :: ds => d :: '.' :: (ds ++ 'e' :: exponentText (p - 1))
    | [] => []

/-- The text of a magnitude. -/
def magnitudeText (bits : Nat) : List Char :=
  if bits = 0 then ['0', '.', '0']
  else
    let (digits, p) := Binary64.shortestDigits bits
    placePoint digits p

/-- The text of a number. -/
def Number.render : Number → List Char
  | .integer n => integerText n
  | .double bits =>
    if Binary64.signBit ≤ bits then '-' :: magnitudeText (bits - Binary64.signBit)
    else magnitudeText bits

/-! ### Values -/

namespace Value

mutual

/-- The compact text of a value. -/
def render : Value → List Char
  | null => ['n', 'u', 'l', 'l']
  | bool true => ['t', 'r', 'u', 'e']
  | bool false => ['f', 'a', 'l', 's', 'e']
  | number n => n.render
  | string s => quote s
  | array items => '[' :: (renderItems items ++ [']'])
  | object ms => '\x7b' :: (renderMembers ms ++ ['\x7d'])

/-- Items with commas between them. -/
def renderItems : List Value → List Char
  | [] => []
  | [v] => render v
  | v :: w :: rest => render v ++ ',' :: renderItems (w :: rest)

/-- Members with commas between them. -/
def renderMembers : List (String × Value) → List Char
  | [] => []
  | [(k, v)] => quote k ++ ':' :: render v
  | (k, v) :: m :: rest => quote k ++ ':' :: (render v ++ ',' :: renderMembers (m :: rest))

end

/-- The compact text of a value, as a string. -/
def text (v : Value) : String := String.ofList v.render

/-- The text of a value that does not depend on how its objects list their members. -/
def canonical (v : Value) : String := v.sortKeys.text

end Value

end AtMostOnce.Json
