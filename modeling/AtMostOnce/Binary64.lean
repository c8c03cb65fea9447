/-
Double-precision numbers without floating-point arithmetic.

A non-negative finite double is `m · 2^q` for a 53-bit `m`; its bit pattern, read
as a natural number, grows with its value.  Everything here works on that pattern
in exact arithmetic on naturals: `nearest` rounds a quotient to the closest
double with ties to the even pattern, `mul` and `div` round once, and
`shortestDigits` finds the fewest decimal digits that round back.

The sign is kept apart: a pattern here is the magnitude only.
-/

namespace AtMostOnce.Binary64

/-- How many patterns there are to an exponent: `2^52`. -/
def fractionSize : Nat := 0x10000000000000

/-- The pattern of infinity; every finite magnitude lies below it. -/
def infinity : Nat := 0x7FF0000000000000

/-- The bit that marks a negative double. -/
def signBit : Nat := 0x8000000000000000

/-- A magnitude as `(m, q)`, standing for `m · 2^q`. -/
def decode (bits : Nat) : Nat × Int :=
  let exponent : Nat := bits / fractionSize
  let fraction : Nat := bits % fractionSize
  if exponent = 0 then (fraction, -1074) else (fraction + fractionSize, (exponent : Int) - 1075)

/-- The quotient `n / d` rounded to the nearest natural, a tie to the even one. -/
def roundHalfEven (n d : Nat) : Nat :=
  let q := n / d
  let r := n % d
  if 2 * r < d then q else if d < 2 * r then q + 1 else q + q % 2

/-- The fraction `n / d · 2^e` as a numerator and a denominator. -/
def scaled (n d : Nat) (e : Int) : Nat × Nat :=
  if 0 ≤ e then (n * Nat.pow 2 e.toNat, d) else (n, d * Nat.pow 2 (-e).toNat)

/-- The exponent of the binade that holds `n / d`: the largest `e` with `2^e ≤ n / d`. -/
def binade (n d : Nat) : Int :=
  let e : Int := (n.log2 : Int) - (d.log2 : Int)
  let (p, q) := scaled n d (-e)
  if q ≤ p then e else e - 1

/--
The double closest to `n / d`, ties to even; patterns from `infinity` on mean that
the quotient is too large.  A significand that rounds up to the next power of two
carries into the exponent by itself, because the exponent field sits right above
the fraction.
-/
def nearest (n d : Nat) : Nat :=
  if n = 0 then 0 else
    let e := max (binade n d - 52) (-1074)
    let (p, q) := scaled n d (-e)
    (e + 1074).toNat * fractionSize + roundHalfEven p q

/-- The double closest to `10^k`. -/
def tenPow (k : Nat) : Nat := nearest (Nat.pow 10 k) 1

/-- The product of two doubles, rounded once. -/
def mul (a b : Nat) : Nat :=
  let (m, q) := decode a
  let (m', q') := decode b
  let (n, d) := scaled (m * m') 1 (q + q')
  nearest n d

/-- The quotient of two doubles, rounded once. -/
def div (a b : Nat) : Nat :=
  let (m, q) := decode a
  let (m', q') := decode b
  let (n, d) := scaled m m' (q - q')
  nearest n d

/-! ### Fewest digits that read back -/

/-- How many decimal digits a natural has. -/
def digitCount (n : Nat) : Nat := (Nat.toDigits 10 n).length

/-- The place of the decimal point of `n / d`: the `p` with `10^(p-1) ≤ n / d < 10^p`. -/
def pointPlace (n d : Nat) : Int :=
  if d ≤ n then digitCount (n / d) else 1 - (digitCount ((d - 1) / n) : Int)

/-- The fraction `c · 10^k` as a numerator and a denominator. -/
def decimal (c : Nat) (k : Int) : Nat × Nat :=
  if 0 ≤ k then (c * Nat.pow 10 k.toNat, 1) else (c, Nat.pow 10 (-k).toNat)

/-- Does the decimal `c · 10^k` round to the double `bits`? -/
def readsBack (bits c : Nat) (k : Int) : Bool :=
  let (n, d) := decimal c k
  nearest n d == bits

/--
The decimal with `count` digits that rounds to `bits`, if there is one: of the two
neighbours of the value on that grid the nearer, or the even one when both are
equally near.
-/
def onGrid (bits : Nat) (count : Nat) : Option (Nat × Int) :=
  let (m, q) := decode bits
  let (n, d) := scaled m 1 q
  let k := pointPlace n d - (count : Int)
  let (p, r) := if 0 ≤ k then (n, d * Nat.pow 10 k.toNat) else (n * Nat.pow 10 (-k).toNat, d)
  let low := p / r
  let high := low + 1
  match readsBack bits low k, readsBack bits high k with
  | true, true => some (roundHalfEven p r, k)
  | true, false => some (low, k)
  | false, true => some (high, k)
  | false, false => none

/-- Searches the grids of `count`, `count + 1`, … digits, `fuel` of them. -/
def searchGrids (bits : Nat) : Nat → Nat → Nat × Int
  | 0, _ => (0, 0)
  | fuel + 1, count =>
    match onGrid bits count with
    | some found => found
    | none => searchGrids bits fuel (count + 1)

/-- Drops trailing zeros of `digits · 10^k`. -/
def trimZeros : Nat → Nat → Int → Nat × Int
  | 0, digits, k => (digits, k)
  | fuel + 1, digits, k =>
    if digits ≠ 0 ∧ digits % 10 = 0 then trimZeros fuel (digits / 10) (k + 1) else (digits, k)

/--
The fewest decimal digits that round back to a positive finite double, with the
place of the decimal point: digits `d` and place `p` stand for `0.d · 10^p`.
Seventeen digits always suffice for a 53-bit significand.
-/
def shortestDigits (bits : Nat) : List Char × Int :=
  let (c, k) := searchGrids bits 17 1
  let (digits, k) := trimZeros 17 c k
  (Nat.toDigits 10 digits, k + (digitCount digits : Int))

end AtMostOnce.Binary64
