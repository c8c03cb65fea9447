/-
SHA-2 over words of any width.

SHA-256 and SHA-512 are one algorithm on words of 32 and 64 bits: `Variant` holds
what differs, the width, the number of rounds and the rotations.  The constants of
both are the leading bits behind the point of square and cube roots of the first
primes, so they are computed from the primes once and for all.
-/
import AtMostOnce.Digest.Blocks

namespace AtMostOnce.Digest.Sha2

/-! ### Constants -/

/-- The largest `r` with `r ^ k ≤ n`, found bit by bit. -/
def floorRoot (k n : Nat) : (bits : Nat) → (r : Nat) → Nat
  | 0, r => r
  | bit + 1, r =>
    let s := r + Nat.pow 2 bit
    if Nat.pow s k ≤ n then floorRoot k n bit s else floorRoot k n bit r

/-- The first `width` bits behind the point of the `k`-th root of a number below `2^9`. -/
def rootFraction (width k p : Nat) : Nat :=
  floorRoot k (p * Nat.pow 2 (k * width)) (width + 9) 0 % Nat.pow 2 width

/-- Is a number divisible only by itself and one? -/
def isPrime (n : Nat) : Bool := 2 ≤ n && (List.range n).all fun d => d < 2 || n % d ≠ 0

/-- The first eighty primes. -/
def primes : List Nat := ((List.range 410).filter isPrime).take 80

/-! ### The algorithm -/

/-- What tells one function of the family from another: the width of a word, the number of rounds,
and the distances of its rotations and shifts. -/
structure Variant where
  width : Nat
  rounds : Nat
  bigSigma0 : Nat × Nat × Nat
  bigSigma1 : Nat × Nat × Nat
  smallSigma0 : Nat × Nat × Nat
  smallSigma1 : Nat × Nat × Nat

namespace Variant

/-- A word. -/
abbrev Word (v : Variant) : Type := BitVec v.width

/-- The constant added in each round. -/
def roundConstants (v : Variant) : List v.Word :=
  (primes.take v.rounds).map fun p => BitVec.ofNat v.width (rootFraction v.width 3 p)

/-- The chaining value before the first block. -/
def initial (v : Variant) : List v.Word :=
  (primes.take 8).map fun p => BitVec.ofNat v.width (rootFraction v.width 2 p)

/-- Three rotations, combined. -/
def rotations (v : Variant) (r : Nat × Nat × Nat) (x : v.Word) : v.Word :=
  x.rotateRight r.1 ^^^ x.rotateRight r.2.1 ^^^ x.rotateRight r.2.2

/-- Two rotations and a shift, combined. -/
def rotationsAndShift (v : Variant) (r : Nat × Nat × Nat) (x : v.Word) : v.Word :=
  x.rotateRight r.1 ^^^ x.rotateRight r.2.1 ^^^ (x >>> r.2.2)

/-- The message padded to whole blocks: a one bit, zeros, and its length in bits. -/
def pad (v : Variant) (bytes : List UInt8) : List UInt8 :=
  let block := 2 * v.width
  let tail := v.width / 4
  let zeros := (block - (bytes.length + 1 + tail) % block) % block
  bytes ++ 0x80 :: (List.replicate zeros 0 ++ toBigEndian tail (8 * bytes.length))

/-- Extends the schedule, kept newest word first, by `n` words. -/
def extend (v : Variant) : (n : Nat) → List v.Word → List v.Word
  | 0, ws => ws
  | n + 1, ws =>
    let at_ (i : Nat) : v.Word := ws.getD (i - 1) 0
    let w := v.rotationsAndShift v.smallSigma1 (at_ 2) + at_ 7
      + v.rotationsAndShift v.smallSigma0 (at_ 15) + at_ 16
    extend v n (w :: ws)

/-- The schedule of a block: one word a round. -/
def schedule (v : Variant) (block : List UInt8) : List v.Word :=
  let words := (pieces (v.width / 8) block).map fun b => BitVec.ofNat v.width (ofBigEndian b)
  (v.extend (v.rounds - 16) words.reverse).reverse

/-- The eight working words of a round. -/
structure Working (v : Variant) where
  a : v.Word
  b : v.Word
  c : v.Word
  d : v.Word
  e : v.Word
  f : v.Word
  g : v.Word
  h : v.Word

/-- The working words of a chaining value. -/
def working (v : Variant) (hs : List v.Word) : Working v :=
  let at_ (i : Nat) : v.Word := hs.getD i 0
  ⟨at_ 0, at_ 1, at_ 2, at_ 3, at_ 4, at_ 5, at_ 6, at_ 7⟩

/-- One round. -/
def round (v : Variant) (s : Working v) (kw : v.Word × v.Word) : Working v :=
  let choice := (s.e &&& s.f) ^^^ (~~~s.e &&& s.g)
  let t₁ := s.h + v.rotations v.bigSigma1 s.e + choice + kw.1 + kw.2
  let majority := (s.a &&& s.b) ^^^ (s.a &&& s.c) ^^^ (s.b &&& s.c)
  let t₂ := v.rotations v.bigSigma0 s.a + majority
  ⟨t₁ + t₂, s.a, s.b, s.c, s.d + t₁, s.e, s.f, s.g⟩

/-- The chaining value after a block. -/
def compress (v : Variant) (ks : List v.Word) (hs : List v.Word) (block : List UInt8) :
    List v.Word :=
  let s := (ks.zip (v.schedule block)).foldl v.round (v.working hs)
  List.zipWith (· + ·) hs [s.a, s.b, s.c, s.d, s.e, s.f, s.g, s.h]

/-- The digest of a message, given the constants of the variant. -/
def digestWith (v : Variant) (ks hs : List v.Word) (bytes : List UInt8) : List UInt8 :=
  let blocks := pieces (2 * v.width) (v.pad bytes)
  (blocks.foldl (v.compress ks) hs).flatMap fun w => toBigEndian (v.width / 8) w.toNat

end Variant

/-- SHA-256. -/
def sha256 : Variant := ⟨32, 64, (2, 13, 22), (6, 11, 25), (7, 18, 3), (17, 19, 10)⟩

/-- SHA-512. -/
def sha512 : Variant := ⟨64, 80, (28, 34, 39), (14, 18, 41), (1, 8, 7), (19, 61, 6)⟩

/-- The round constants of SHA-256. -/
def constants256 : List sha256.Word := sha256.roundConstants

/-- The first chaining value of SHA-256. -/
def initial256 : List sha256.Word := sha256.initial

/-- The round constants of SHA-512. -/
def constants512 : List sha512.Word := sha512.roundConstants

/-- The first chaining value of SHA-512. -/
def initial512 : List sha512.Word := sha512.initial

/-- The 32 bytes of a message's SHA-256 digest. -/
def digest256 (bytes : List UInt8) : List UInt8 := sha256.digestWith constants256 initial256 bytes

/-- The 64 bytes of a message's SHA-512 digest. -/
def digest512 (bytes : List UInt8) : List UInt8 := sha512.digestWith constants512 initial512 bytes

end AtMostOnce.Digest.Sha2
