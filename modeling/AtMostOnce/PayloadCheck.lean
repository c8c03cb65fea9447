/-
Is a reused key reused for the same payload?

The digest of the checked part of a payload is stored with its record and compared
with that of a later payload.  An empty digest on either side stands for a record
or a call without the check, and matches.
-/
import AtMostOnce.KeyRule
import AtMostOnce.Record

namespace AtMostOnce

/-- Which part of a payload must not change; without a selector nothing is checked. -/
structure PayloadCheck where
  selector : Option Selector
  hash : HashFunction

namespace PayloadCheck

/-- Is anything checked? -/
def isEnabled (c : PayloadCheck) : Bool := c.selector.isSome

/-- The digest of a payload's checked part, empty when nothing is checked. -/
def compute (c : PayloadCheck) (payload : Json.Value) : String :=
  match c.selector with
  | some s => c.hash.ofValue (s.search payload)
  | none => ""

/-- Do a stored digest and a computed one match? -/
def agrees (stored computed : String) : Bool :=
  stored.isEmpty || computed.isEmpty || stored = computed

/-- Does a record accept a payload with this digest? -/
def accepts (c : PayloadCheck) (r : Record) (computed : String) : Bool :=
  !c.isEnabled || agrees (r.payloadHash.getD "") computed

/-- Refuses a payload with a digest that the record does not accept. -/
def check (c : PayloadCheck) (r : Record) (computed : String) : Except Error Unit :=
  if c.accepts r computed then .ok () else .error (.payloadValidation r.key)

end PayloadCheck

end AtMostOnce
