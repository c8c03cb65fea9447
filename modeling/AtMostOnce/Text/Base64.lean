/-
Bytes in base 64.

Four digits of six bits each stand for three bytes.  A last group of two or three
digits, which stands for one or two bytes, is padded to four characters, and its spare
bits are zero.  So every list of bytes is written in one way only.
-/

namespace AtMostOnce.Text.Base64

/-- The value of a digit. -/
def value? (c : Char) : Option Nat :=
  if c.isUpper then some (c.toNat - 'A'.toNat)
  else if c.isLower then some (c.toNat - 'a'.toNat + 26)
  else if c.isDigit then some (c.toNat - '0'.toNat + 52)
  else if c = '+' then some 62
  else if c = '/' then some 63
  else none

/-- The padding that so many digits need. -/
def padding (digits : Nat) : Nat := (4 - digits % 4) % 4

/-- Are the spare bits of a last digit zero, given the padding behind it? -/
def spareBitsClear (last pad : Nat) : Bool :=
  match pad with
  | 0 => true
  | 1 => last % 4 = 0
  | 2 => last % 16 = 0
  | _ => false

/-- Is a text the one way to write some bytes? -/
def isCanonical (cs : List Char) : Bool :=
  let digits := cs.takeWhile fun c => (value? c).isSome
  let pad := padding digits.length
  cs = digits ++ List.replicate pad '='
    && spareBitsClear ((digits.getLast?.bind value?).getD 0) pad

end AtMostOnce.Text.Base64
