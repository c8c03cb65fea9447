/-
A ledger in memory.

Claiming looks at the record in the way and writes in one step.
-/
import AtMostOnce.Assoc
import AtMostOnce.Ledger

namespace AtMostOnce.Ledger

/-- The records of a ledger, by key. -/
abbrev Memory := Assoc Key Record

namespace Memory

/-- May a record be claimed under a key? -/
def isFree (m : Memory) (key : Key) (now : Millis) : Bool :=
  match m.get? key with
  | some r => r.isReplaceable now
  | none => true

/-- Puts a record under its key. -/
def put (m : Memory) (r : Record) : Memory := m.insert r.key r

/-- Answers a request at a point in time. -/
def answer (now : Millis) : (q : Request) → Memory → q.Answer × Memory
  | .claim r, m => if m.isFree r.key now then (.ok .created, m.put r) else (.ok .conflict, m)
  | .find k, m =>
    match m.get? k with
    | some r => (.ok r, m)
    | none => (.error (.itemNotFound k), m)
  | .complete r, m => (.ok (), m.put r)
  | .remove k, m => (.ok (), m.erase k)

end Memory

end AtMostOnce.Ledger
