/-
A ledger in memory that fails on demand.

Errors wait in one queue for each kind of request.  A request takes the oldest error
of its queue and fails with it, the records untouched; with an empty queue it is
answered as usual.  Every request is on record, the failed ones too.
-/
import AtMostOnce.Ledger.Memory

namespace AtMostOnce.Ledger

/-- A ledger that fails on demand. -/
structure Faulty where
  records : Memory
  /-- The requests so far, the oldest first. -/
  requests : List Request
  /-- The errors that wait, the oldest first. -/
  faults : Kind → List Error

namespace Faulty

/-- The ledger without records, requests and faults. -/
def empty : Faulty := ⟨[], [], fun _ => []⟩

/-- Lets an error wait for a request of a kind. -/
def push (l : Faulty) (kind : Kind) (e : Error) : Faulty :=
  { l with faults := fun k => if k = kind then l.faults kind ++ [e] else l.faults k }

/-- The queues without the oldest error of a kind. -/
def pop (faults : Kind → List Error) (kind : Kind) : Kind → List Error :=
  fun k => if k = kind then (faults kind).tail else faults k

/-- How many requests of a kind there were. -/
def count (l : Faulty) (kind : Kind) : Nat :=
  (l.requests.filter fun q => q.kind = kind).length

/-- Forgets the requests so far. -/
def clear (l : Faulty) : Faulty := { l with requests := [] }

/-- Answers a request at a point in time. -/
def answer (now : Millis) (q : Request) (l : Faulty) : q.Answer × Faulty :=
  let requests := l.requests ++ [q]
  match l.faults q.kind with
  | e :: _ => (.error e, ⟨l.records, requests, pop l.faults q.kind⟩)
  | [] =>
    let (a, records) := l.records.answer now q
    (a, ⟨records, requests, l.faults⟩)

end Faulty

end AtMostOnce.Ledger
