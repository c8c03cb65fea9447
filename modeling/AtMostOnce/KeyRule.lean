/-
How a payload becomes a key.

The rule selects the identifying part of a payload and hashes its canonical text
into a digest under the rule's scope.  When the selection identifies nothing, the
rule either refuses or derives one key for all such payloads and says so.
-/
import AtMostOnce.HashFunction
import AtMostOnce.Selector

namespace AtMostOnce

/-- Something worth a warning. -/
inductive Warning where
  | emptyMaterial
  | payloadMismatch
  | retrying
  deriving DecidableEq, Repr

/-- The wording of a warning. -/
def Warning.text : Warning → String
  | emptyMaterial => "No idempotency key value found, hashing empty material"
  | payloadMismatch => "Payload does not match stored record"
  | retrying => "Retrying idempotent call"

/-- How a payload becomes a key. -/
structure KeyRule where
  scope : String
  selector : Selector
  hash : HashFunction
  /-- Refuse a payload in which the selector finds nothing. -/
  required : Bool

namespace KeyRule

/-- Does selecting from the payload call for the warning? -/
def warns (rule : KeyRule) (payload : Json.Value) : Bool :=
  (rule.selector.search payload).isMissing && !rule.required

/-- The identifying part of a payload. -/
def material (rule : KeyRule) (payload : Json.Value) : Except Error Json.Value :=
  let selected := rule.selector.search payload
  if selected.isMissing && rule.required then .error (.keyDerivation rule.selector.source)
  else .ok selected

/-- The key of a payload. -/
def derive (rule : KeyRule) (payload : Json.Value) : Except Error Key :=
  match rule.material payload with
  | .ok m => .ok (Key.compose rule.scope (rule.hash.ofValue m))
  | .error e => .error e

end KeyRule

end AtMostOnce
