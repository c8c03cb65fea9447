/-
A server of fields behind a connection.

An operation is carried out by commands: one alone, or several that the server
queues and runs together.  A reply comes back for each command sent alone and one
for each transaction.  A reply that is an error, or of a type that the operation
cannot use, fails the operation.
-/
import AtMostOnce.Dialogue
import AtMostOnce.FieldStore
import AtMostOnce.Text.Decimal
import AtMostOnce.Word

namespace AtMostOnce.FieldStore.Server

/-- A command, word by word. -/
abbrev Command := List String

/-- What is sent to the server before it replies. -/
inductive Message where
  | single (command : Command)
  | transaction (commands : List Command)
  deriving DecidableEq, Repr

/-- A reply of the server. -/
inductive Reply where
  | null
  | integer (n : Int)
  | text (s : String)
  | status (s : String)
  | error (s : String)
  | array (items : List Reply)
  deriving Repr, Inhabited

/-! ### Reading replies -/

mutual

/-- Does the reply hold an error? -/
def Reply.hasError : Reply → Bool
  | .error _ => true
  | .array items => anyError items
  | _ => false

/-- Does one of the replies hold an error? -/
def anyError : List Reply → Bool
  | [] => false
  | r :: rest => r.hasError || anyError rest

end

/-- A reply as a truth value. -/
def Reply.truth? : Reply → Option Bool
  | .null => some false
  | .integer n => some (n ≠ 0)
  | .text s => ofDigit s
  | .status s => if s = "OK" then some true else ofDigit s
  | _ => none
where
  /-- One and zero as truth values. -/
  ofDigit (s : String) : Option Bool :=
    if s = "1" then some true else if s = "0" then some false else none

/-- A reply as a text. -/
def Reply.text? : Reply → Option String
  | .text s => some s
  | .status s => some s
  | .integer n => some (Text.decimal n)
  | _ => none

/-- A reply as an integer. -/
def Reply.integer? : Reply → Option Int
  | .integer n => some n
  | .text s => Word.ofSignedDigits? s.toList
  | .status s => if s = "OK" then none else Word.ofSignedDigits? s.toList
  | _ => none

/-- Alternating names and values as fields. -/
def pairs? : List Reply → Option Fields
  | [] => some []
  | [_] => none
  | name :: value :: rest => do
    let name ← name.text?
    let value ← value.text?
    let fields ← pairs? rest
    return (name, value) :: fields

/-- A reply as fields, the last of several values of one field counting. -/
def Reply.fields? : Reply → Option Fields
  | .null => some []
  | .array items => (pairs? items).map fun fields => Assoc.insertAll [] fields
  | _ => none

/-- A reply as an optional text. -/
def Reply.optionalText? : Reply → Option (Option String)
  | .null => some none
  | r => r.text?.map some

/-- Does the reply say that a transaction ran? -/
def Reply.ran : Reply → Bool
  | .null => true
  | .array _ => true
  | _ => false

/-! ### Operations as commands -/

/-- The commands that set fields and a time to live. -/
def setCommands (key : String) (fields : Fields) (ttl : Option Int) : List Command :=
  (if fields.isEmpty then [] else ["HMSET" :: key :: fields.flatMap fun f => [f.1, f.2]])
    ++ (match ttl with
        | some ttl => [["EXPIRE", key, Text.decimal ttl]]
        | none => [])

/-- A failure of the connection. -/
def failed (command : String) : Error :=
  .persistence ("Redis " ++ command ++ " failed") (.ofText "redis error")

/-- What a dialogue with the server is about. -/
abbrev Talk (α : Type) := Dialogue Message (fun _ => Reply) α

/-- The value of a reply, or the failure of the command. -/
def result {α : Type} (command : String) (r : Reply) (value : Option α) : Except Error α :=
  if r.hasError then .error (failed command)
  else
    match value with
    | some a => .ok a
    | none => .error (failed command)

/-- Sends a command and reads its reply. -/
def single {α : Type} (name : String) (command : Command) (read : Reply → Option α) :
    Talk (Except Error α) := do
  let r ← Dialogue.query (Message.single command)
  return result name r (read r)

/-- Sends a transaction. -/
def transaction (name : String) (commands : List Command) : Talk (Except Error Unit) := do
  let r ← Dialogue.query (Message.transaction commands)
  return result name r (if r.ran then some () else none)

/-- Carries out an operation. -/
def perform : (op : Operation) → Talk op.Answer
  | .claim key field value => single "HSETNX" ["HSETNX", key, field, value] Reply.truth?
  | .write key fields ttl =>
    match setCommands key fields ttl with
    | [] => .done (.ok ())
    | commands => transaction "HSET/EXPIRE" commands
  | .read key => do
    let fields ← Dialogue.query (Message.single ["HGETALL", key])
    let ttl ← Dialogue.query (Message.single ["TTL", key])
    return result "HGETALL/TTL" (.array [fields, ttl]) do
      return (← fields.fields?, ← ttl.integer?)
  | .lock key token ttl =>
    single "SET NX" ["SET", key, token, "NX", "EX", Text.decimal ttl] fun r =>
      r.optionalText?.map Option.isSome
  | .replace key fields ttl =>
    transaction "DEL/HSET/EXPIRE" (["DEL", key] :: setCommands key fields ttl)
  | .delete key => single "DEL" ["DEL", key] fun _ => some ()

end AtMostOnce.FieldStore.Server
