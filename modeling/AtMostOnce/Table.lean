/-
What a table is asked, and how it replies.

A request goes out as JSON and comes back as a status code with JSON, or not at all.
A success has to have a well-formed body.  Anything else is a refusal, which may say
of which type it is.  A request may also fail before it goes out.
-/
import AtMostOnce.Table.Condition
import AtMostOnce.Table.Shape

namespace AtMostOnce.Table

open AtMostOnce.Json (Value Members)

/-! ### Requests -/

/-- What is asked of a table. -/
inductive Action where
  /-- Writes an item if what stands in its place meets a condition. -/
  | put (item : Item) (condition : Condition) (bindings : Bindings)
  /-- Reads an item as it is after all writes. -/
  | get (key : Item)
  /-- Changes an item, or makes it. -/
  | update (key : Item) (update : Update) (bindings : Bindings)
  | delete (key : Item)

/-- A request to a table. -/
structure Request where
  table : String
  action : Action

namespace Request

/-- The name of a request. -/
def name (r : Request) : String :=
  match r.action with
  | .put _ _ _ => "PutItem"
  | .get _ => "GetItem"
  | .update _ _ _ => "UpdateItem"
  | .delete _ => "DeleteItem"

/-- The members of a request's JSON that its placeholders take. -/
def bindingMembers (b : Bindings) : Members :=
  [("ExpressionAttributeNames", namesToJson b.names),
   ("ExpressionAttributeValues", Item.toJson b.values)]

/-- The JSON of a request. -/
def body (r : Request) : Value :=
  .object (("TableName", .string r.table) ::
    match r.action with
    | .put item condition b =>
      [("Item", Item.toJson item), ("ConditionExpression", .string condition.text)]
        ++ bindingMembers b
    | .get key => [("Key", Item.toJson key), ("ConsistentRead", .bool true)]
    | .update key update b =>
      [("Key", Item.toJson key), ("UpdateExpression", .string update.text)] ++ bindingMembers b
    | .delete key => [("Key", Item.toJson key)])

end Request

/-! ### Replies -/

/-- What comes back for a request. -/
inductive Reply where
  /-- No response. -/
  | unreachable
  | response (code : Nat) (body : Value)

/-- Why a request failed. -/
inductive Refusal where
  /-- The request could not be made. -/
  | unprepared
  /-- The request could not be sent, or nothing came back. -/
  | unreachable
  /-- The service refused, with the type of the refusal if it gave one. -/
  | refused (type : Option String)
  deriving DecidableEq, Repr

namespace Refusal

/-- The wording of a refusal. -/
def text : Refusal → String
  | unprepared => "failed to construct request"
  | unreachable => "dispatch failure"
  | refused _ => "service error"

end Refusal

/-- A type without the namespace in front of it and whatever follows a colon. -/
def bareType (s : String) : String :=
  let front := s.toList.takeWhile (· ≠ ':')
  match front.dropWhile (· ≠ '#') with
  | [] => String.ofList front
  | _ :: name => String.ofList name

/-- The type that a refusal's body gives: its code if it has one. -/
def typeOf (ms : Members) : Option String :=
  let string? (name : String) : Option String :=
    match Assoc.get? ms name with
    | some (.string s) => some s
    | _ => none
  ((string? "code").or (string? "__type")).map bareType

/-- Is the body that of a success? -/
def Action.accepts : Action → Members → Bool
  | get _, ms => isReading ms
  | _, ms => isWriting ms

/-- The refusal that a body gives; a malformed one has no type. -/
def refusalOf (ms : Members) : Refusal :=
  if isRefusal ms then .refused (typeOf ms) else .refused none

/-- The members of a success, or why the request failed. -/
def Reply.members (action : Action) : Reply → Except Refusal Members
  | unreachable => .error .unreachable
  | response code (.object ms) =>
    if 200 ≤ code ∧ code < 300 then
      if action.accepts ms then .ok ms else .error (.refused none)
    else .error (refusalOf ms)
  | response _ _ => .error (.refused none)

/-- The item among the members of a success. -/
def itemOf (ms : Members) : Option Item :=
  match Assoc.get? ms "Item" with
  | some (.object item) => Item.ofMembers? item
  | _ => none

end AtMostOnce.Table
