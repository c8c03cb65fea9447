/-
A ledger over a server of fields.

A record is a key with fields; its expiry is the key's time to live.  No operation of
the server sets several fields under a condition, so a claim takes steps:

  * Claiming the status field takes a free key; the other fields and the time to
    live follow in one write.
  * If the status was there, the fields are read.  A record in force is a conflict.
  * Anything else is an orphan.  Whoever gets the lock of the key replaces it at
    once; the lock is left to run out, so nobody repairs the same orphan twice.

What is left of a record, and the expiry that is made of a time to live, are figures.
`performM` is the ledger over any arithmetic: `checked` ends at a figure out of range,
and `perform` does not check.
-/
import AtMostOnce.Arithmetic
import AtMostOnce.FieldStore
import AtMostOnce.Ledger
import AtMostOnce.Text.Decimal
import AtMostOnce.Text.Description

namespace AtMostOnce.Ledger

/-- The names of the fields of a record. -/
structure FieldNames where
  deadline : String
  status : String
  data : String
  payloadHash : String
  deriving DecidableEq, Repr

namespace FieldNames

/-- The names that hold when nothing is said. -/
def initial : FieldNames := ⟨"in_progress_expiration", "status", "data", "validation"⟩

/-- The names as one line of text. -/
def describe (n : FieldNames) : String :=
  Text.group "RedisBackend"
    [("config", Text.group "RedisConfig"
      [("in_progress_expiry_attr", Text.quoted n.deadline),
       ("status_attr", Text.quoted n.status), ("data_attr", Text.quoted n.data),
       ("validation_key_attr", Text.quoted n.payloadHash)])]

end FieldNames

namespace Fields

open FieldStore

/-- Names for the fields of a server; one that does not decode its replies is refused. -/
def build (names : FieldNames) (decodes : Bool) : Except Error FieldNames :=
  if decodes then .ok names
  else .error (.configuration "Redis client must decode responses as text")

/-! ### What the ledger asks -/

/-- What the ledger asks. -/
inductive Request where
  | now
  /-- A token that nobody else has. -/
  | token
  | store (operation : Operation)

/-- What it is answered with. -/
@[reducible] def Request.Answer : Request → Type
  | now => Millis
  | token => String
  | store op => op.Answer

/-- What the ledger does. -/
abbrev Action (α : Type) := Dialogue Request Request.Answer α

/-- The time. -/
def now : Action Millis := .query Request.now

/-- A fresh token. -/
def token : Action String := .query Request.token

/-- An operation of the server. -/
def store (op : Operation) : Action op.Answer := .query (Request.store op)

/-! ### Records as fields -/

/-- The fields of an in-progress record besides its status. -/
def claimFields (names : FieldNames) (r : Record) : Fields :=
  (match r.deadline with
    | some t => [(names.deadline, Text.decimal t)]
    | none => [])
    ++ (match r.payloadHash with
        | some h => [(names.payloadHash, h)]
        | none => [])

/-- The fields of a completed record. -/
def completedFields (names : FieldNames) (r : Record) : Fields :=
  (names.status, Status.completed.name) :: (names.data, r.data.getD "")
    :: (match r.payloadHash with
        | some h => [(names.payloadHash, h)]
        | none => [])

/-! ### Requests over any arithmetic -/

/-- How many seconds a lock lasts at most. -/
def maxLockSeconds : Int := 10

/-- The name of a key's lock. -/
def lockName (key : Key) : String := key.text ++ ":lock"

section

variable {M : Type → Type} [Monad M] [MonadLiftT Action M] [Arithmetic M]

/-- The time to live of a record, at least a second. -/
def ttlM (r : Record) : M (Option Int) :=
  match r.expiry with
  | some expiry => do return some (max 1 (← figure (expiry - secondsOf (← now))))
  | none => return none

/-- The record that fields and a time to live stand for. -/
def recordM (names : FieldNames) (key : Key) (fields : Fields) (ttl : Int) :
    M (Except Error Record) := do
  match Status.parse ((fields.get? names.status).getD "") with
  | .error e => return .error e
  | .ok status =>
    let expiry ← if 0 ≤ ttl then do pure (some (← figure (secondsOf (← now) + ttl)))
      else pure none
    return .ok ⟨key, status, expiry,
      (fields.get? names.deadline).bind fun s => Word.ofSignedDigits? s.toList,
      fields.get? names.data, Record.nonEmptyHash (fields.get? names.payloadHash)⟩

/-- Replaces what stands in the way of a claim, unless another caller is at it. -/
def overwriteM (names : FieldNames) (r : Record) : M (Except Error Outcome) := do
  let ttl ← ttlM r
  let token ← token
  match ← store (.lock (lockName r.key) token (min (ttl.getD maxLockSeconds) maxLockSeconds)) with
  | .error e => return .error e
  | .ok false => return .ok .conflict
  | .ok true =>
    let fields := (names.status, Status.inProgress.name) :: claimFields names r
    match ← store (.replace r.key.text fields ttl) with
    | .error e => return .error e
    | .ok () => return .ok .created

/-- Do these fields stand in the way of a claim? -/
def blocksM (names : FieldNames) (key : Key) (fields : Fields) (ttl : Int) : M Bool := do
  if fields.isEmpty then return false
  else
    match ← recordM names key fields ttl with
    | .error _ => return false
    | .ok r => return !r.isReplaceable (← now)

/-- Claims a key. -/
def claimM (names : FieldNames) (r : Record) : M (Except Error Outcome) := do
  match ← store (.claim r.key.text names.status Status.inProgress.name) with
  | .error e => return .error e
  | .ok true =>
    match ← store (.write r.key.text (claimFields names r) (← ttlM r)) with
    | .error e => return .error e
    | .ok () => return .ok .created
  | .ok false =>
    match ← store (.read r.key.text) with
    | .error e => return .error e
    | .ok (fields, ttl) =>
      if ← blocksM names r.key fields ttl then return .ok .conflict else overwriteM names r

/-- Finds a record. -/
def findM (names : FieldNames) (key : Key) : M (Except Error Record) := do
  match ← store (.read key.text) with
  | .error e => return .error e
  | .ok (fields, ttl) =>
    if fields.isEmpty then return .error (.itemNotFound key) else recordM names key fields ttl

/-- Carries out a request. -/
def performM (names : FieldNames) : (q : Ledger.Request) → M q.Answer
  | .claim r => claimM names r
  | .find key => findM names key
  | .complete r => do store (.write r.key.text (completedFields names r) (← ttlM r))
  | .remove key => store (.delete key.text)

end

/-! ### Requests -/

/-- Carries out a request up to the first figure out of range. -/
def checked (names : FieldNames) (q : Ledger.Request) : Action (Except Overflow q.Answer) :=
  (performM names q : ExceptT Overflow Action q.Answer).run

/-! What follows is not checked. -/

/-- The time to live of a record, at least a second. -/
def ttlOf (r : Record) : Action (Option Int) := ttlM r

/-- The record that fields and a time to live stand for. -/
def recordOf (names : FieldNames) (key : Key) (fields : Fields) (ttl : Int) :
    Action (Except Error Record) :=
  recordM names key fields ttl

/-- Replaces what stands in the way of a claim, unless another caller is at it. -/
def overwrite (names : FieldNames) (r : Record) : Action (Except Error Outcome) :=
  overwriteM names r

/-- Do these fields stand in the way of a claim? -/
def blocks (names : FieldNames) (key : Key) (fields : Fields) (ttl : Int) : Action Bool :=
  blocksM names key fields ttl

/-- Claims a key. -/
def claim (names : FieldNames) (r : Record) : Action (Except Error Outcome) := claimM names r

/-- Finds a record. -/
def find (names : FieldNames) (key : Key) : Action (Except Error Record) := findM names key

/-- Carries out a request. -/
def perform (names : FieldNames) (q : Ledger.Request) : Action q.Answer := performM names q

end Fields

end AtMostOnce.Ledger
