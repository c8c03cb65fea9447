/-
Idempotency keys.

A key is `scope#digest`: the scope names the deployed function and the wrapped
one, the digest identifies a payload.  A digest holds no `#`, so the last one is
where the two parts meet.
-/

namespace AtMostOnce

/-- A text refused as a value of some type. -/
structure ValidationError where
  type : String
  detail : String
  deriving DecidableEq, Repr

/-- The wording of a refusal. -/
def ValidationError.message (e : ValidationError) : String := e.type ++ ": " ++ e.detail

/-- The name of one entry of the ledger. -/
structure Key where
  text : String
  deriving DecidableEq, Repr, Inhabited, Hashable

namespace Key

/-- Splits a text at its last separator. -/
def splitLast (sep : Char) : List Char → Option (List Char × List Char)
  | [] => none
  | c :: cs =>
    match splitLast sep cs with
    | some (front, back) => some (c :: front, back)
    | none => if c = sep then some ([], cs) else none

/-- The key of a scope and a digest. -/
def compose (scope digest : String) : Key := ⟨scope ++ "#" ++ digest⟩

/-- What stands before the last `#`, or the whole key. -/
def scope (k : Key) : String :=
  match splitLast '#' k.text.toList with
  | some (front, _) => String.ofList front
  | none => k.text

/-- What stands after the last `#`, or nothing. -/
def digest (k : Key) : String :=
  match splitLast '#' k.text.toList with
  | some (_, back) => String.ofList back
  | none => ""

/-- A text as a key; the empty text is refused. -/
def parse (text : String) : Except ValidationError Key :=
  if text.isEmpty then .error ⟨"IdempotencyKey", "value cannot be empty"⟩ else .ok ⟨text⟩

instance : ToString Key := ⟨Key.text⟩

end Key

end AtMostOnce
