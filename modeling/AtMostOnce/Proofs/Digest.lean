/-
How long digests are.

Every digest function yields as many bytes as its name says, whatever the message, so
no digest is empty text.  Both algorithms keep eight words between the blocks, and that
is what the lengths follow from.
-/
import AtMostOnce.HashFunction

namespace AtMostOnce

namespace Digest

theorem length_toLittleEndian (count n : Nat) : (toLittleEndian count n).length = count := by
  induction count generalizing n with
  | zero => rfl
  | succ count ih => rw [toLittleEndian, List.length_cons, ih]

theorem length_toBigEndian (count n : Nat) : (toBigEndian count n).length = count := by
  rw [toBigEndian, List.length_reverse, length_toLittleEndian]

/-- Words that are written with `n` bytes each. -/
theorem length_flatMap_of_length {α β : Type} {f : α → List β} {n : Nat}
    (h : ∀ a, (f a).length = n) (l : List α) : (l.flatMap f).length = l.length * n := by
  induction l with
  | nil => simp
  | cons a l ih =>
    rw [List.flatMap_cons, List.length_append, h, ih, List.length_cons, Nat.succ_mul,
      Nat.add_comm]

namespace Sha2.Variant

variable (v : Variant)

theorem length_compress (ks : List v.Word) {hs : List v.Word} (h : hs.length = 8)
    (block : List UInt8) : (v.compress ks hs block).length = 8 := by
  simp [compress, h]

theorem length_digestWith (ks : List v.Word) {hs : List v.Word} (h : hs.length = 8)
    (bytes : List UInt8) : (v.digestWith ks hs bytes).length = 8 * (v.width / 8) := by
  have blocks : ∀ (l : List (List UInt8)) (hs : List v.Word), hs.length = 8 →
      (l.foldl (v.compress ks) hs).length = 8 := by
    intro l
    induction l with
    | nil => exact fun _ h => h
    | cons block l ih => exact fun hs h => ih _ (v.length_compress ks h block)
  rw [digestWith, length_flatMap_of_length fun _ => length_toBigEndian _ _, blocks _ hs h]

end Sha2.Variant

theorem Blake2b.size_absorb (h : Array UInt64) (count : Nat) (blocks : List (List UInt8)) :
    (Blake2b.absorb h count blocks).size = 8 := by
  fun_induction Blake2b.absorb h count blocks with
  | case1 => simp [Blake2b.compress]
  | case2 => simp [Blake2b.compress]
  | case3 _ _ _ _ _ _ ih => exact ih

theorem Blake2b.length_digest (length : Nat) (bytes : List UInt8) :
    (Blake2b.digest length bytes).length = min length 64 := by
  rw [Blake2b.digest, List.length_take,
    length_flatMap_of_length fun _ => length_toLittleEndian _ _, Array.length_toList,
    Blake2b.size_absorb]

end Digest

namespace HashFunction

/-- The number of bytes of a digest. -/
def size : HashFunction → Nat
  | blake2b128 => 16
  | blake2b512 => 64
  | sha256 => 32
  | sha512 => 64

theorem length_bytes (h : HashFunction) (message : List UInt8) :
    (h.bytes message).length = h.size := by
  cases h with
  | blake2b128 => exact Digest.Blake2b.length_digest 16 message
  | blake2b512 => exact Digest.Blake2b.length_digest 64 message
  | sha256 => exact Digest.Sha2.Variant.length_digestWith _ _ (by decide +kernel) message
  | sha512 => exact Digest.Sha2.Variant.length_digestWith _ _ (by decide +kernel) message

/-- The digest of a value has two digits for each byte. -/
theorem length_ofValue (h : HashFunction) (v : Json.Value) :
    (h.ofValue v).length = 2 * h.size := by
  rw [ofValue, hex, String.length_ofList, Text.hexBytes,
    Digest.length_flatMap_of_length (n := 2) fun _ => rfl, length_bytes, Nat.mul_comm]

end HashFunction

end AtMostOnce
