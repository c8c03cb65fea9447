/-
The digests that a key or a payload check may use.
-/
import AtMostOnce.Error
import AtMostOnce.Digest.Blake2b
import AtMostOnce.Json.Printer
import AtMostOnce.Text.Blank

namespace AtMostOnce

/-- A digest function. -/
inductive HashFunction where
  | blake2b128
  | blake2b512
  | sha256
  | sha512
  deriving DecidableEq, Repr, Inhabited

namespace HashFunction

/-- The name of a digest function. -/
def name : HashFunction → String
  | blake2b128 => "blake2b-128"
  | blake2b512 => "blake2b-512"
  | sha256 => "sha256"
  | sha512 => "sha512"

/-- The digest function of a name, in any case and with or without the hyphen. -/
def parse (s : String) : Except Error HashFunction :=
  let name := Text.lowercase s
  if name = "blake2b-128" ∨ name = "blake2b128" then .ok blake2b128
  else if name = "blake2b-512" ∨ name = "blake2b512" ∨ name = "blake2b" then .ok blake2b512
  else if name = "sha256" ∨ name = "sha-256" then .ok sha256
  else if name = "sha512" ∨ name = "sha-512" then .ok sha512
  else .error (.configuration s!"unsupported hash function '{name}'")

/-- The bytes of a message's digest. -/
def bytes : HashFunction → List UInt8 → List UInt8
  | blake2b128, m => Digest.Blake2b.digest 16 m
  | blake2b512, m => Digest.Blake2b.digest 64 m
  | sha256, m => Digest.Sha2.digest256 m
  | sha512, m => Digest.Sha2.digest512 m

/-- The digest of a message in hexadecimal. -/
def hex (h : HashFunction) (message : List UInt8) : String :=
  String.ofList (Text.hexBytes (h.bytes message))

/-- The digest of a value: that of its canonical text, so key order does not show. -/
def ofValue (h : HashFunction) (v : Json.Value) : String := h.hex v.canonical.toUTF8.toList

end HashFunction

end AtMostOnce
