/-
The range of 64-bit signed integers.

Timestamps, lifetimes and indexes are integers of this range.  `clamp` is where
arithmetic saturates, `wrap` is where it runs around the ends.
-/

namespace AtMostOnce.Word

/-- The least 64-bit signed integer. -/
def least : Int := -9223372036854775808

/-- The greatest 64-bit signed integer. -/
def greatest : Int := 9223372036854775807

/-- Is the integer a 64-bit signed one? -/
def InRange (n : Int) : Prop := least ≤ n ∧ n ≤ greatest

instance (n : Int) : Decidable (InRange n) := inferInstanceAs (Decidable (_ ∧ _))

/-- The nearest integer of the range. -/
def clamp (n : Int) : Int := max least (min n greatest)

/-- The integer of the range that is equal modulo `2^64`. -/
def wrap (n : Int) : Int := n.bmod 18446744073709551616

/-- A sum that saturates. -/
def addClamped (a b : Int) : Int := clamp (a + b)

/-- A decimal integer of the range, with an optional minus sign. -/
def ofDigits? : List Char → Option Int
  | '-' :: ds => parse true ds
  | ds => parse false ds
where
  /-- Digits, at least one, of a number of the given sign. -/
  parse (negative : Bool) (ds : List Char) : Option Int :=
    if ds.isEmpty || !ds.all Char.isDigit then none
    else
      let m : Int := ds.foldl (fun n d => n * 10 + ((d.toNat - '0'.toNat : Nat) : Int)) 0
      let n := if negative then -m else m
      if InRange n then some n else none

/-- A decimal integer of the range, with an optional sign. -/
def ofSignedDigits? : List Char → Option Int
  | '+' :: ds => ofDigits?.parse false ds
  | cs => ofDigits? cs

end AtMostOnce.Word
