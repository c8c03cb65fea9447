/-
BLAKE2b without a key.

The message is cut into blocks of 128 bytes, the last filled up with zeros; each
block is mixed into eight words together with the number of bytes so far and a
mark on the last block.  The first chaining value is that of SHA-512, with the
length of the digest mixed in.
-/
import AtMostOnce.Digest.Sha2

namespace AtMostOnce.Digest.Blake2b

/-- The order in which the ten kinds of round take the words of a block. -/
def sigma : List (List Nat) :=
  [[0, 1, 2, 3, 4, 5, 6, 7, 8, 9, 10, 11, 12, 13, 14, 15],
   [14, 10, 4, 8, 9, 15, 13, 6, 1, 12, 0, 2, 11, 7, 5, 3],
   [11, 8, 12, 0, 5, 2, 15, 13, 10, 14, 3, 6, 7, 1, 9, 4],
   [7, 9, 3, 1, 13, 12, 11, 14, 2, 6, 5, 10, 4, 0, 15, 8],
   [9, 0, 5, 7, 2, 4, 10, 15, 14, 1, 11, 12, 6, 8, 3, 13],
   [2, 12, 6, 10, 0, 11, 8, 3, 4, 13, 7, 5, 15, 14, 1, 9],
   [12, 5, 1, 15, 14, 13, 4, 10, 0, 7, 6, 3, 9, 2, 8, 11],
   [13, 11, 7, 14, 12, 1, 3, 9, 5, 0, 15, 4, 8, 6, 2, 10],
   [6, 15, 14, 9, 11, 3, 0, 8, 12, 2, 13, 7, 1, 4, 10, 5],
   [10, 2, 8, 4, 7, 6, 1, 5, 15, 11, 9, 14, 3, 12, 13, 0]]

/-- The first chaining value, before the parameters are mixed in. -/
def initial : Array UInt64 := (Sha2.initial512.map fun w => UInt64.ofNat w.toNat).toArray

/-- Rotation to the right. -/
def rotate (x : UInt64) (n : UInt64) : UInt64 := (x >>> n) ||| (x <<< (64 - n))

/-- Mixes two words of the message into four words of the state. -/
def mix (s : Array UInt64) (a b c d : Nat) (x y : UInt64) : Array UInt64 :=
  let va := s.getD a 0 + s.getD b 0 + x
  let vd := rotate (s.getD d 0 ^^^ va) 32
  let vc := s.getD c 0 + vd
  let vb := rotate (s.getD b 0 ^^^ vc) 24
  let va := va + vb + y
  let vd := rotate (vd ^^^ va) 16
  let vc := vc + vd
  let vb := rotate (vb ^^^ vc) 63
  (((s.setIfInBounds a va).setIfInBounds b vb).setIfInBounds c vc).setIfInBounds d vd

/-- The columns and then the diagonals of the state. -/
def lanes : List (Nat × Nat × Nat × Nat) :=
  [(0, 4, 8, 12), (1, 5, 9, 13), (2, 6, 10, 14), (3, 7, 11, 15),
   (0, 5, 10, 15), (1, 6, 11, 12), (2, 7, 8, 13), (3, 4, 9, 14)]

/-- One round: every lane takes the next two words in the round's order. -/
def round (m s : Array UInt64) (order : List Nat) : Array UInt64 :=
  (lanes.zip (pieces 2 order)).foldl (fun s (lane, pair) =>
    mix s lane.1 lane.2.1 lane.2.2.1 lane.2.2.2
      (m.getD (pair.getD 0 0) 0) (m.getD (pair.getD 1 0) 0)) s

/-- The chaining value after a block; `count` bytes of the message have been taken by then. -/
def compress (h : Array UInt64) (block : List UInt8) (count : Nat) (last : Bool) :
    Array UInt64 :=
  let padded := block ++ List.replicate (128 - block.length) 0
  let m := ((pieces 8 padded).map fun b => UInt64.ofNat (ofLittleEndian b)).toArray
  let s := h ++ initial
  let s := s.modify 12 (· ^^^ UInt64.ofNat count)
  let s := s.modify 13 (· ^^^ UInt64.ofNat (count / 0x10000000000000000))
  let s := if last then s.modify 14 (~~~ ·) else s
  let s := (sigma ++ sigma.take 2).foldl (round m) s
  Array.ofFn fun i : Fin 8 => h.getD i 0 ^^^ s.getD i 0 ^^^ s.getD (i + 8) 0

/-- Takes the blocks one after the other. -/
def absorb (h : Array UInt64) (count : Nat) : List (List UInt8) → Array UInt64
  | [] => compress h [] count true
  | [block] => compress h block (count + block.length) true
  | block :: rest =>
    let count := count + block.length
    absorb (compress h block count false) count rest

/-- The first `length` bytes of the digest of a message, for a function of that digest length. -/
def digest (length : Nat) (bytes : List UInt8) : List UInt8 :=
  let h := initial.modify 0 (· ^^^ (0x01010000 ^^^ UInt64.ofNat length))
  let words := absorb h 0 (pieces 128 bytes)
  (words.toList.flatMap fun w => toLittleEndian 8 w.toNat).take length

end AtMostOnce.Digest.Blake2b
