/-
Integers in decimal.
-/

namespace AtMostOnce.Text

/-- The digits of an integer, with a minus sign in front of them if it is negative. -/
def integerText (n : Int) : List Char :=
  if n < 0 then '-' :: Nat.toDigits 10 n.natAbs else Nat.toDigits 10 n.natAbs

/-- An integer as a string. -/
def decimal (n : Int) : String := String.ofList (integerText n)

/-- The number that digits stand for. -/
def natural (digits : List Char) : Nat :=
  digits.foldl (fun n d => n * 10 + (d.toNat - '0'.toNat)) 0

end AtMostOnce.Text
