/-
Cutting a message into blocks, and words into bytes.
-/

namespace AtMostOnce.Digest

/-- A message cut after every `n` bytes, the last piece being as long as what is left. -/
def cut {α : Type} (n : Nat) : (fuel : Nat) → List α → List (List α)
  | 0, _ => []
  | _ + 1, [] => []
  | fuel + 1, bytes => bytes.take n :: cut n fuel (bytes.drop n)

/-- The pieces of `n` bytes each, the last perhaps shorter. -/
def pieces {α : Type} (n : Nat) (bytes : List α) : List (List α) := cut n bytes.length bytes

/-- The natural that bytes stand for, the most significant first. -/
def ofBigEndian (bytes : List UInt8) : Nat := bytes.foldl (fun n b => n * 256 + b.toNat) 0

/-- The natural that bytes stand for, the least significant first. -/
def ofLittleEndian (bytes : List UInt8) : Nat := ofBigEndian bytes.reverse

/-- The lowest `count` bytes of a natural, the least significant first. -/
def toLittleEndian : (count : Nat) → Nat → List UInt8
  | 0, _ => []
  | count + 1, n => UInt8.ofNat (n % 256) :: toLittleEndian count (n / 256)

/-- The lowest `count` bytes of a natural, the most significant first. -/
def toBigEndian (count n : Nat) : List UInt8 := (toLittleEndian count n).reverse

end AtMostOnce.Digest
