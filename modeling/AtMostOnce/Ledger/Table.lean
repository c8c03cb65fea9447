/-
A ledger over a table.

A record is an item.  A claim is one conditional put: the condition lets it pass when
the key is missing, the record there has expired, or it is in progress and past its
deadline.

With a sort attribute all records of a function share one partition, and the sort
attribute takes the key.
-/
import AtMostOnce.Dialogue
import AtMostOnce.Environment
import AtMostOnce.Ledger
import AtMostOnce.Table
import AtMostOnce.Table.Endpoint
import AtMostOnce.Text.Decimal
import AtMostOnce.Text.Description

namespace AtMostOnce.Ledger

/-- Where a table is and how its attributes are named. -/
structure TableSettings where
  table : String
  keyName : String
  partition : Option String
  sortName : Option String
  expiryName : String
  deadlineName : String
  statusName : String
  dataName : String
  payloadHashName : String
  region : Option String
  endpoint : Option String
  deriving Repr

/-- The settings of a table that hold when nothing else is said. -/
def TableSettings.initial (table : String) : TableSettings where
  table := table
  keyName := "id"
  partition := none
  sortName := none
  expiryName := "expiration"
  deadlineName := "in_progress_expiration"
  statusName := "status"
  dataName := "data"
  payloadHashName := "validation"
  region := none
  endpoint := none

/-- The layout of a table: its settings and the partition of a function's records. -/
structure TableLayout where
  settings : TableSettings
  partition : String
  deriving Repr

namespace TableLayout

open AtMostOnce.Table

/-- Refuses settings without a table, and a sort attribute that is the key attribute too. -/
def validate (s : TableSettings) : Except Error Unit :=
  if s.table.isEmpty then .error (.configuration "table_name cannot be empty")
  else if s.sortName = some s.keyName then
    .error (.configuration ("key_attr and sort_key_attr cannot both be '" ++ s.keyName ++ "'"))
  else .ok ()

/-- The layout of a table in an environment. -/
def build (env : Environment) (s : TableSettings) : Except Error TableLayout := do
  validate s
  return ⟨s, s.partition.getD ("idempotency#" ++ env.functionName?.getD "")⟩

/-- The layout as one line of text. -/
def describe (l : TableLayout) : String :=
  Text.group "DynamoDbBackend"
    [("table_name", Text.quoted l.settings.table),
     ("sort_key_attr", Text.optional (l.settings.sortName.map Text.quoted))]

/-- The region of a table that names none. -/
def defaultRegion : String := "us-east-1"

/-- The address that requests go to, or why there can be none. -/
def destination (l : TableLayout) : Except Refusal String :=
  let table := l.settings.table
  let region := l.settings.region.getD defaultRegion
  if Endpoint.canAsk region table then
    match Endpoint.address? (l.settings.endpoint.getD (Endpoint.ofRegion region table)) with
    | some address => .ok address
    | none => .error .unreachable
  else .error .unprepared

/-! ### Records as items -/

/-- The attributes that make up a key. -/
def keyItem (l : TableLayout) (key : Key) : Item :=
  match l.settings.sortName with
  | some sort =>
    Assoc.insertAll [] [(l.settings.keyName, .text l.partition), (sort, .text key.text)]
  | none => [(l.settings.keyName, .text key.text)]

/-- An integer as a number of a table. -/
def numberOf (n : Int) : Attribute := .number (Text.decimal n)

/-- An attribute that is there or not. -/
def optional {α : Type} (name : String) (f : α → Attribute) : Option α → Item
  | some a => [(name, f a)]
  | none => []

/-- The item of an in-progress record. -/
def claimItem (l : TableLayout) (r : Record) : Item :=
  let s := l.settings
  (l.keyItem r.key).insertAll
    ((s.statusName, .text Status.inProgress.name)
      :: (optional s.expiryName numberOf r.expiry
        ++ optional s.deadlineName numberOf r.deadline
        ++ optional s.payloadHashName .text r.payloadHash))

/-- The condition of a claim. -/
def claimCondition : Condition :=
  [[.missing "#id"], [.less "#expiry" ":now"],
   [.equal "#status" ":inprogress", .present "#in_progress_expiry",
    .less "#in_progress_expiry" ":now_in_millis"]]

/-- What the placeholders of a claim stand for at a point in time. -/
def claimBindings (l : TableLayout) (now : Millis) : Bindings where
  names :=
    [("#id", l.settings.keyName), ("#expiry", l.settings.expiryName),
     ("#in_progress_expiry", l.settings.deadlineName), ("#status", l.settings.statusName)]
  values :=
    [(":now", numberOf (secondsOf now)), (":now_in_millis", numberOf now),
     (":inprogress", .text Status.inProgress.name)]

/-- What the completion of a record sets: placeholder of the name, name, placeholder of the value,
value. -/
def completion (l : TableLayout) (r : Record) : List (String × String × String × Attribute) :=
  let s := l.settings
  [("#response_data", s.dataName, ":response_data", .text (r.data.getD "")),
   ("#status", s.statusName, ":status", .text Status.completed.name)]
    ++ (match r.expiry with
        | some t => [("#expiry", s.expiryName, ":expiry", numberOf t)]
        | none => [])
    ++ (match r.payloadHash with
        | some h => [("#validation_key", s.payloadHashName, ":validation_key", .text h)]
        | none => [])

/-- The update that completes a record. -/
def completeUpdate (l : TableLayout) (r : Record) : Update :=
  (l.completion r).map fun c => (c.1, c.2.2.1)

/-- What the placeholders of a completion stand for. -/
def completeBindings (l : TableLayout) (r : Record) : Bindings where
  names := (l.completion r).map fun c => (c.1, c.2.1)
  values := (l.completion r).map fun c => c.2.2

/-- The attribute that holds a record's key. -/
def keyHolder (l : TableLayout) : String := l.settings.sortName.getD l.settings.keyName

/-- The record that an item stands for. -/
def recordOf (l : TableLayout) (item : Item) : Except Error Record :=
  let s := l.settings
  let text (name : String) := (item.get? name).bind Attribute.text?
  let number (name : String) := (item.get? name).bind Attribute.integer?
  match text l.keyHolder with
  | none =>
    .error (.persistence "DynamoDB item is malformed"
      (.ofText ("missing string attribute '" ++ l.keyHolder ++ "'")))
  | some key =>
    match Status.parse ((text s.statusName).getD "") with
    | .error e => .error e
    | .ok status =>
      .ok ⟨⟨key⟩, status, number s.expiryName, number s.deadlineName, text s.dataName,
        Record.nonEmptyHash (text s.payloadHashName)⟩

/-! ### Requests -/

/-- What the ledger asks. -/
inductive Request where
  | now
  | send (address : String) (request : Table.Request)

/-- What it is answered with. -/
@[reducible] def Request.Answer : Request → Type
  | now => Millis
  | send _ _ => Reply

/-- What the ledger does. -/
abbrev Action (α : Type) := Dialogue Request Request.Answer α

/-- Sends a request to the table. -/
def send (l : TableLayout) (action : Table.Action) : Action (Except Refusal Json.Members) := do
  match l.destination with
  | .error refusal => return .error refusal
  | .ok address =>
    let reply ← Dialogue.query (Request.send address ⟨l.settings.table, action⟩)
    return reply.members action

/-- A refusal as an error. -/
def failed (request : String) (r : Refusal) : Error :=
  .persistence ("DynamoDB " ++ request ++ " failed") (.ofText r.text)

/-- The type of the refusal of a put whose condition does not hold. -/
def conditionFailed : String := "ConditionalCheckFailedException"

/-- Claims a key. -/
def claim (l : TableLayout) (r : Record) : Action (Except Error Outcome) := do
  let time ← Dialogue.query Request.now
  match ← l.send (.put (l.claimItem r) claimCondition (l.claimBindings time)) with
  | .ok _ => return .ok .created
  | .error refusal =>
    if refusal = .refused (some conditionFailed) then return .ok .conflict
    else return .error (failed "PutItem" refusal)

/-- Finds a record. -/
def find (l : TableLayout) (key : Key) : Action (Except Error Record) := do
  match ← l.send (.get (l.keyItem key)) with
  | .error refusal => return .error (failed "GetItem" refusal)
  | .ok ms =>
    match itemOf ms with
    | some item => return l.recordOf item
    | none => return .error (.itemNotFound key)

/-- Completes a record. -/
def complete (l : TableLayout) (r : Record) : Action (Except Error Unit) := do
  match ← l.send (.update (l.keyItem r.key) (l.completeUpdate r) (l.completeBindings r)) with
  | .error refusal => return .error (failed "UpdateItem" refusal)
  | .ok _ => return .ok ()

/-- Removes a record. -/
def remove (l : TableLayout) (key : Key) : Action (Except Error Unit) := do
  match ← l.send (.delete (l.keyItem key)) with
  | .error refusal => return .error (failed "DeleteItem" refusal)
  | .ok _ => return .ok ()

/-- Carries out a request. -/
def perform (l : TableLayout) : (q : Ledger.Request) → Action q.Answer
  | .claim r => l.claim r
  | .find key => l.find key
  | .complete r => l.complete r
  | .remove key => l.remove key

end TableLayout

end AtMostOnce.Ledger
