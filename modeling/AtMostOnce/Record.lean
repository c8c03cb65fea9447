/-
Records: what the ledger keeps under a key.

A record is in progress from its creation until a completed one takes its place.
It expires at the end of its expiry second, and an in-progress record also loses
its claim once its deadline has passed; either way the next caller may replace it.
`Expired` is never stored: it is what a record past its expiry is read as.
-/
import AtMostOnce.Error
import AtMostOnce.Time

namespace AtMostOnce

/-- The status of a record. -/
inductive Status where
  | inProgress
  | completed
  | expired
  deriving DecidableEq, Repr, Inhabited

namespace Status

/-- The stored name of a status. -/
def name : Status → String
  | inProgress => "INPROGRESS"
  | completed => "COMPLETED"
  | expired => "EXPIRED"

/-- Every status, in the order in which a message lists them. -/
def all : List Status := [inProgress, completed, expired]

/-- The status of a stored name. -/
def ofName? (s : String) : Option Status := all.find? fun st => st.name = s

/-- The status of a stored name, any other name being an error. -/
def parse (s : String) : Except Error Status :=
  match ofName? s with
  | some st => .ok st
  | none => .error (.invalidStatus s)

theorem parse_name (st : Status) : parse st.name = .ok st := by cases st <;> rfl

end Status

/-- One entry of the ledger. -/
structure Record where
  key : Key
  status : Status
  /-- The last second in which the record counts. -/
  expiry : Option Seconds
  /-- The last millisecond in which an in-progress record keeps its claim. -/
  deadline : Option Millis
  /-- The stored result. -/
  data : Option String
  /-- The digest that a later payload under the key has to match. -/
  payloadHash : Option String
  deriving DecidableEq, Repr, Inhabited

namespace Record

/-- A digest to be stored: the empty one stands for none. -/
def nonEmptyHash : Option String → Option String
  | some h => if h.isEmpty then none else some h
  | none => none

theorem nonEmptyHash_eq {hash : Option String} (h : hash ≠ some "") : nonEmptyHash hash = hash := by
  cases hash with
  | none => rfl
  | some text =>
    refine if_neg ?_
    rw [String.isEmpty_iff]
    exact fun htext => h (congrArg some htext)

/-- Has the record expired? -/
def isExpired (r : Record) (now : Seconds) : Bool :=
  match r.expiry with
  | some expiry => decide (expiry < now)
  | none => false

/-- Has the deadline of the record passed? -/
def isOverdue (r : Record) (now : Millis) : Bool :=
  match r.deadline with
  | some deadline => decide (deadline < now)
  | none => false

/-- The status of the record at a point in time. -/
def statusAt (r : Record) (now : Seconds) : Status :=
  if r.isExpired now then .expired else r.status

/-- May a new claim take the place of the record? -/
def isReplaceable (r : Record) (now : Millis) : Bool :=
  r.isExpired (secondsOf now) || (r.status = .inProgress && r.isOverdue now)

end Record

/-- What a response hook is told about the record that is replayed. -/
structure HookData where
  key : Key
  status : Status
  expiry : Option Seconds
  deriving DecidableEq, Repr

/-- The hook data of a record. -/
def Record.hookData (r : Record) : HookData := ⟨r.key, r.status, r.expiry⟩

end AtMostOnce
