/-
Steps of a bench.

A bench is one clock, one ledger and any number of engines and caches, driven one
step at a time.  What in the field happens at the same time is put in a fixed order
here: a step may carry steps that run while its function runs, and steps may wait
for a point before or after a request.
-/
import AtMostOnce.Cache
import AtMostOnce.Engine
import AtMostOnce.FieldStore.Server
import AtMostOnce.Ledger.Table

namespace AtMostOnce.Bench

/-- A payload and the engine that derives a key from it. -/
structure Source where
  engine : Nat
  payload : Engine.Payload

/-- The key that a step is about. -/
inductive KeyOf where
  | named (key : Key)
  | derived (source : Source)

/-- The record that a step is about: its key may be derived. -/
structure RecordOf where
  record : Except Error Record
  key : Option Source

/-- A request that steps may wait for. -/
inductive Call where
  | ledger (kind : Ledger.Kind)
  | store (kind : FieldStore.Kind)
  deriving DecidableEq, Repr

/-- A point right before or right after a request. -/
structure Point where
  after : Bool
  call : Call
  deriving DecidableEq, Repr

/-- A call of an engine: its payload, what its function will come to, how results are stored,
and the time left to it if that is not up to the settings. -/
structure Invocation where
  payload : Engine.Payload
  outcome : Except Failure Json.Value
  encoding : Encoding Json.Value
  remaining : Option (Option Nat)

/-- A step of a bench. -/
inductive Step where
  /-- Builds an engine; it uses the shared cache if `shares`. -/
  | build (functionName : String) (settings : Environment → Except Error Settings)
      (shares describe : Bool)
  /-- Calls an engine; the steps `during` run while its function runs. -/
  | run (engine : Nat) (invocation : Invocation) (during : List Step)
  | key (source : Source)
  | delete (source : Source)
  | advance (millis : Nat)
  | setClock (now : Millis)
  | setEnvironment (change : Environment → Environment)
  /-- Lets steps wait for a point. -/
  | hook (point : Option Point) (steps : List Step)
  | claim (record : RecordOf)
  | find (key : KeyOf)
  | complete (record : RecordOf)
  | remove (key : KeyOf)
  | insert (record : RecordOf)
  | snapshot (key : KeyOf)
  | size
  | pushFault (kind : Ledger.Kind) (error : Error)
  | requests (counted : Ledger.Kind)
  | clearRequests
  /-- Steps on a cache: that of an engine, or the shared one. -/
  | cacheGet (engine : Option Nat) (key : KeyOf)
  | cachePut (engine : Option Nat) (record : RecordOf)
  | cacheErase (engine : Option Nat) (key : KeyOf)
  | cacheSize (engine : Option Nat)
  /-- An operation right on the server, on a key. -/
  | store (key : KeyOf) (operation : String → FieldStore.Operation)
  | failNextWrite
  /-- The fields of a key; of a `secret` one only whether it is there. -/
  | storeFields (key : KeyOf) (secret : Bool)
  | storeTtl (key : KeyOf)
  | tableReplies (replies : List Table.Reply)
  | serverReplies (replies : List FieldStore.Server.Reply)

instance : Inhabited Step := ⟨.size⟩

/-- What a step comes to. -/
inductive Result where
  | failed (error : Error)
  | done
  | built (caches : Bool) (expiresAfter : Nat) (description : Option String)
  | returned (value : Json.Value)
  | key (key : Key)
  | time (now : Millis)
  | outcome (outcome : Outcome)
  | record (record : Option Record)
  | size (count : Nat)
  | requests (kinds : List Ledger.Kind) (counted : Nat)
  | count (count : Nat)
  | truth (b : Bool)
  | read (fields : FieldStore.Fields) (ttl : Int)
  | fields (fields : Option FieldStore.Fields)
  | ttl (ttl : Int) (present : Bool)

/-- Something that happened during a step. -/
inductive Entry where
  | event (event : Event)
  | started
  | ledger (request : Ledger.Request) (answer : request.Answer)
  | store (operation : FieldStore.Operation) (answer : operation.Answer)
  | sent (uri : String) (request : Table.Request)
  | received (command : FieldStore.Server.Command)
  | nested (step : Step) (result : Result)

mutual

/-- How many steps there are in a step, itself included. -/
def Step.total : Step → Nat
  | .run _ _ during => totalOf during + 1
  | .hook _ steps => totalOf steps + 1
  | _ => 1

/-- How many steps there are in a list of steps. -/
def totalOf : List Step → Nat
  | [] => 0
  | s :: rest => s.total + totalOf rest

end

end AtMostOnce.Bench
