/-
The engine: calls a function at most once for a key.

A call claims the key in the ledger, runs the function and completes the record, or
gives the record up when the function fails.  If the claim meets a record in force,
its stored result is replayed, or the call is told that another one is under way.
A record that disappears or expires between the claim and the look at it is an
inconsistent state, and the call starts over as often as the settings allow.

All of this is a dialogue: the engine asks for the time, asks its cache and its
ledger, starts the function, waits for its result, and notes what it is doing.
-/
import AtMostOnce.Dialogue
import AtMostOnce.Encoding
import AtMostOnce.Ledger
import AtMostOnce.PayloadCheck
import AtMostOnce.Settings

namespace AtMostOnce

/-- How far an attempt has come. -/
inductive Stage where
  | notStarted
  | returningCachedResult
  | savingInProgress
  | wrappedCallRunning
  | completed
  | failed
  | rolledBack
  deriving DecidableEq, Repr

/-- The name of a stage. -/
def Stage.name : Stage → String
  | notStarted => "NotStarted"
  | returningCachedResult => "ReturningCachedResult"
  | savingInProgress => "SavingInProgress"
  | wrappedCallRunning => "WrappedCallRunning"
  | completed => "Completed"
  | failed => "Failed"
  | rolledBack => "RolledBack"

/-- Something that the engine notes. -/
inductive Event where
  | warning (warning : Warning)
  /-- An attempt, counted from zero, has come to a stage. -/
  | reached (stage : Stage) (attempt : Nat)
  deriving DecidableEq, Repr

/-- An engine over a ledger. -/
structure Engine where
  functionName : String
  settings : Settings
  rule : KeyRule
  check : PayloadCheck
  /-- Is there a cache? -/
  caches : Bool

namespace Engine

/-! ### Building -/

/-- The name of a function that is given none. -/
def defaultFunctionName : String := "handler"

/-- The scope of a function's keys: its name, behind that of the deployed function if there is
one. -/
def scope (env : Environment) (functionName : String) : String :=
  match env.functionName? with
  | some deployed => deployed ++ "." ++ functionName
  | none => functionName

/-- The engine of a function with some settings; a cache given to it counts as its own. -/
def build (env : Environment) (functionName : String) (settings : Settings) (hasCache : Bool) :
    Except Error Engine := do
  settings.validate
  if functionName.isEmpty then
    .error (.configuration "function name cannot be empty")
  else
    let key ← settings.key
    let check ← settings.check
    return {
      functionName := functionName
      settings := settings
      rule := ⟨scope env functionName, key, settings.hash, settings.keyRequired⟩
      check := ⟨check, settings.hash⟩
      caches := hasCache || settings.useCache }

/-- The engine as one line of text. -/
def describe (e : Engine) : String :=
  Text.group "Idempotency"
    [("namespace", Text.quoted e.rule.scope), ("config", e.settings.describe),
     ("local_cache", Text.truth e.caches)]

/-! ### What the engine asks -/

/-- What an engine asks. -/
inductive Request where
  /-- What time is it? -/
  | now
  /-- Looks a key up in the cache. -/
  | cached (key : Key)
  /-- Puts a record into the cache. -/
  | keep (record : Record)
  /-- Drops a key from the cache. -/
  | forget (key : Key)
  | ledger (request : Ledger.Request)
  /-- Starts the wrapped function. -/
  | start
  /-- Waits for the wrapped function. -/
  | finish
  | note (event : Event)

/-- What it is answered with, around a function with results `α`. -/
@[reducible] def Answer (α : Type) : Request → Type
  | .now => Millis
  | .cached _ => Option Record
  | .keep _ => Unit
  | .forget _ => Unit
  | .ledger q => q.Answer
  | .start => Unit
  | .finish => Except Failure α
  | .note _ => Unit

/-- What an engine does around a function with results `α`. -/
abbrev Action (α β : Type) := Dialogue Request (Answer α) β

variable {α β : Type}

/-- The time. -/
def now : Action α Millis := .query Request.now

/-- A request to the ledger. -/
def ledger (q : Ledger.Request) : Action α q.Answer := .query (Request.ledger q)

/-- Notes an event. -/
def note (event : Event) : Action α Unit := .query (Request.note event)

/-- Notes that an attempt has come to a stage. -/
def reached (stage : Stage) (attempt : Nat) : Action α Unit := note (.reached stage attempt)

/-- The record under a key in the cache, if there is a cache. -/
def cached (e : Engine) (key : Key) : Action α (Option Record) :=
  if e.caches then .query (Request.cached key) else .done none

/-- Puts a record into the cache, if there is one. -/
def keep (e : Engine) (r : Record) : Action α Unit :=
  if e.caches then .query (Request.keep r) else .done ()

/-- Drops a key from the cache, if there is one. -/
def forget (e : Engine) (key : Key) : Action α Unit :=
  if e.caches then .query (Request.forget key) else .done ()

/-! ### Keys and payloads -/

/-- A payload as a value, or the reason why it has none. -/
abbrev Payload := Except String Json.Value

/-- The key of a payload, with a warning when the payload identifies nothing. -/
def deriveKey (e : Engine) (payload : Json.Value) : Action α (Except Error Key) := do
  if e.rule.warns payload then note (.warning .emptyMaterial)
  return e.rule.derive payload

/-- Refuses a payload with a digest that the record does not accept, with a warning. -/
def checkPayload (e : Engine) (r : Record) (digest : String) : Action α (Except Error Unit) := do
  if !e.check.accepts r digest then note (.warning .payloadMismatch)
  return e.check.check r digest

/-! ### One attempt -/

/-- The second in which a record made now expires. -/
def expiry (e : Engine) : Action α Seconds := do
  return Word.addClamped (secondsOf (← now)) (lifetime e.settings.expiresAfter)

/-- The result that a completed record holds, changed by the response hook if there is one. -/
def replay (e : Engine) (encoding : Encoding α) (context : EncodingContext) (r : Record) :
    Except Error α :=
  let decode (text : String) : Except Error α :=
    match encoding.replay context text with
    | .ok a => .ok a
    | .error err => .error err.toError
  match r.data, e.settings.responseHook with
  | none, _ => .error (.serialization s!"completed record {r.key} has no stored result")
  | some text, none => decode text
  | some text, some hook =>
    match Json.parse text with
    | .ok v => decode (hook v r.hookData).text
    | .error f => .error (.serialization (f.message text))

/-- Ends a call with a record from the cache. -/
def replayCached (e : Engine) (encoding : Encoding α) (context : EncodingContext) (n : Nat)
    (digest : String) (r : Record) : Action α (Except Error α) := do
  match ← e.checkPayload r digest with
  | .error err => return .error err
  | .ok () =>
    reached .returningCachedResult n
    reached .completed n
    return e.replay encoding context r

/-- Stores the function's result and ends the call with it.  A result that cannot be stored leaves
the record in progress. -/
def finishWith (e : Engine) (encoding : Encoding α) (context : EncodingContext) (n : Nat)
    (claimed : Record) (a : α) : Action α (Except Error α) := do
  match encoding.store context a with
  | .error err => return .error err.toError
  | .ok data =>
    let completed : Record :=
      ⟨claimed.key, .completed, some (← e.expiry), none, some data, claimed.payloadHash⟩
    match ← ledger (.complete completed) with
    | .error err =>
      return .error
        (err.orPersistence "Failed to update record state to success in idempotency store")
    | .ok () =>
      e.keep completed
      reached .completed n
      return .ok a

/-- Removes the record of a key from the ledger and then from the cache. -/
def remove (e : Engine) (key : Key) : Action α (Except Error Unit) := do
  match ← ledger (.remove key) with
  | .error err =>
    return .error (err.orPersistence "Failed to delete record from idempotency store")
  | .ok () =>
    e.forget key
    return .ok ()

/-- Ends the call with the function's failure, giving the record up unless the failure is one that
leaves it in progress. -/
def failWith (e : Engine) (n : Nat) (key : Key) (f : Failure) : Action α (Except Error α) := do
  if e.settings.rollsBack f then
    match ← e.remove key with
    | .error err => return .error err
    | .ok () =>
      reached .rolledBack n
      return .error (.handler f)
  else
    reached .failed n
    return .error (.handler f)

/-- Runs the function for a claimed record. -/
def callFunction (e : Engine) (encoding : Encoding α) (context : EncodingContext) (n : Nat)
    (claimed : Record) : Action α (Except Error α) := do
  reached .wrappedCallRunning n
  Dialogue.query Request.start
  match ← Dialogue.query Request.finish with
  | .ok a => e.finishWith encoding context n claimed a
  | .error f => e.failWith n claimed.key f

/-- Ends a call with the record that stood in its way. -/
def settleWith (e : Engine) (encoding : Encoding α) (context : EncodingContext) (n : Nat)
    (key : Key) (r : Record) : Action α (Except Error α) := do
  match r.statusAt (secondsOf (← now)) with
  | .expired =>
    return .error (.inconsistentState s!"record for {key} expired after a conflicting write")
  | .inProgress =>
    if r.isOverdue (← now) then
      return .error (.inconsistentState
        s!"in progress record for {key} expired after a conflicting write")
    else return .error (.alreadyInProgress key)
  | .completed =>
    e.keep r
    reached .returningCachedResult n
    match e.replay encoding context r with
    | .ok a =>
      reached .completed n
      return .ok a
    | .error err => return .error err

/-- Looks at the record that stood in the way of a claim. -/
def resolveConflict (e : Engine) (encoding : Encoding α) (context : EncodingContext) (n : Nat)
    (key : Key) (digest : String) : Action α (Except Error α) := do
  match ← ledger (.find key) with
  | .error (.itemNotFound _) =>
    return .error (.inconsistentState s!"record for {key} vanished after a conflicting write")
  | .error err =>
    return .error (err.orPersistence "Failed to get record from idempotency store")
  | .ok r =>
    match ← e.checkPayload r digest with
    | .error err => return .error err
    | .ok () => e.settleWith encoding context n key r

/-- The in-progress record of a key, with the time left to the call. -/
def claimFor (e : Engine) (key : Key) (digest : String) (remaining : Option Nat) :
    Action α Record := do
  let time ← now
  return ⟨key, .inProgress, some (← e.expiry),
    remaining.map fun left => Word.addClamped time (lifetime left), none,
    Record.nonEmptyHash (some digest)⟩

/-- Claims a key and goes on as the ledger answers.  The second result says whether the function
has been started, now or before. -/
def claim (e : Engine) (encoding : Encoding α) (context : EncodingContext) (n : Nat)
    (key : Key) (digest : String) (remaining : Option Nat) (started : Bool) :
    Action α (Except Error α × Bool) := do
  let record ← e.claimFor key digest remaining
  reached .savingInProgress n
  match ← ledger (.claim record) with
  | .error err =>
    return (.error
      (err.orPersistence "Failed to save in progress record to idempotency store"), started)
  | .ok .created =>
    if started then
      return (.error (.inconsistentState "wrapped function was already invoked"), true)
    else return (← e.callFunction encoding context n record, true)
  | .ok .conflict =>
    match ← e.resolveConflict encoding context n key digest with
    | .ok a => return (.ok a, started)
    | .error err =>
      reached .failed n
      return (.error err, started)

/-- One attempt at a call. -/
def attempt (e : Engine) (encoding : Encoding α) (payload : Json.Value) (remaining : Option Nat)
    (n : Nat) (started : Bool) : Action α (Except Error α × Bool) := do
  match ← e.deriveKey payload with
  | .error err => return (.error err, started)
  | .ok key =>
    let digest := e.check.compute payload
    let context : EncodingContext := ⟨key, e.functionName⟩
    reached .notStarted n
    match ← e.cached key with
    | some r => return (← e.replayCached encoding context n digest r, started)
    | none => e.claim encoding context n key digest remaining started

/-! ### Whole calls -/

/-- Attempts from number `n` on, with so many retries left. -/
def attempts (e : Engine) (encoding : Encoding α) (payload : Json.Value)
    (remaining : Option Nat) : (retries : Nat) → (n : Nat) → (started : Bool) →
    Action α (Except Error α)
  | 0, n, started => do
    let (result, _) ← e.attempt encoding payload remaining n started
    return result
  | retries + 1, n, started => do
    let (result, started) ← e.attempt encoding payload remaining n started
    match result with
    | .ok a => return .ok a
    | .error err =>
      if err.isRetryable then
        note (.warning .retrying)
        e.attempts encoding payload remaining retries (n + 1) started
      else return .error err

/-- Calls the function for a payload, or replays what it returned. -/
def run (e : Engine) (encoding : Encoding α) (payload : Payload) (remaining : Option Nat) :
    Action α (Except Error α) := do
  if e.settings.disabled then
    Dialogue.query Request.start
    match ← Dialogue.query Request.finish with
    | .ok a => return .ok a
    | .error f => return .error (.handler f)
  else
    match payload with
    | .error reason => return .error (.serialization reason)
    | .ok payload => e.attempts encoding payload remaining e.settings.maxRetries 0 false

/-- The key of a payload. -/
def key (e : Engine) (payload : Payload) : Action α (Except Error Key) := do
  match payload with
  | .error reason => return .error (.serialization reason)
  | .ok payload => e.deriveKey payload

/-- Removes the record of a payload's key. -/
def delete (e : Engine) (payload : Payload) : Action α (Except Error Key) := do
  match ← e.key payload with
  | .error err => return .error err
  | .ok key =>
    match ← e.remove key with
    | .error err => return .error err
    | .ok () => return .ok key

end Engine

end AtMostOnce
