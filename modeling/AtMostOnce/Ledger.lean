/-
What the engine asks of a ledger.

A ledger keeps at most one record under a key.  A claim writes an in-progress
record unless a record in force stands in its way; the other requests read, replace
and remove whatever is there.
-/
import AtMostOnce.Record

namespace AtMostOnce

/-- What came of a claim. -/
inductive Outcome where
  /-- The record was written and the key is held. -/
  | created
  /-- Another record is in force. -/
  | conflict
  deriving DecidableEq, Repr, Inhabited

namespace Ledger

/-- A request to a ledger. -/
inductive Request where
  | claim (record : Record)
  | find (key : Key)
  | complete (record : Record)
  | remove (key : Key)
  deriving DecidableEq, Repr

/-- What a request is answered with when the ledger does not fail. -/
@[reducible] def Request.Result : Request → Type
  | claim _ => Outcome
  | find _ => Record
  | complete _ => Unit
  | remove _ => Unit

/-- What a request is answered with. -/
@[reducible] def Request.Answer (q : Request) : Type := Except Error q.Result

/-- The kinds of requests. -/
inductive Kind where
  | claim
  | find
  | complete
  | remove
  deriving DecidableEq, Repr

/-- The kind of a request. -/
def Request.kind : Request → Kind
  | claim _ => .claim
  | find _ => .find
  | complete _ => .complete
  | remove _ => .remove

/-- The key that a request is about. -/
def Request.key : Request → Key
  | claim r => r.key
  | find k => k
  | complete r => r.key
  | remove k => k

end Ledger

end AtMostOnce
