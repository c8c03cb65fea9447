/-
What can go wrong, and how it is worded.

A failure is an error of someone else: of the wrapped function, or of whatever a
store talks to.  `Error.orPersistence` is how the engine reports what a store
answered: a failure passed off as the wrapped function's own becomes a persistence
error, everything else already says what it is.
-/
import AtMostOnce.Key

namespace AtMostOnce

/-- An error from outside: its kind, which tells error types apart, and its text. -/
structure Failure where
  kind : String
  text : String
  deriving DecidableEq, Repr, Inhabited

/-- A failure that is nothing but a text. -/
def Failure.ofText (text : String) : Failure := ⟨"text", text⟩

/-- Why a call could not be made, finished or replayed. -/
inductive Error where
  /-- The selector found nothing to derive a key from, and that is forbidden. -/
  | keyDerivation (selector : String)
  /-- The key was used before with another payload. -/
  | payloadValidation (key : Key)
  /-- The store holds no record under the key. -/
  | itemNotFound (key : Key)
  /-- Another call holds the key. -/
  | alreadyInProgress (key : Key)
  /-- The store changed between two requests of one attempt. -/
  | inconsistentState (reason : String)
  /-- The store failed. -/
  | persistence (doing : String) (source : Failure)
  /-- A stored status is none of the known ones. -/
  | invalidStatus (status : String)
  /-- The settings are refused. -/
  | configuration (reason : String)
  /-- A payload, a result or a stored text could not be converted. -/
  | serialization (reason : String)
  /-- The wrapped function failed. -/
  | handler (failure : Failure)
  deriving DecidableEq, Repr, Inhabited

namespace Error

/-- The wording of an error. -/
def message : Error → String
  | keyDerivation selector =>
    "No data found to create a hashed idempotency key using expression '" ++ selector ++ "'"
  | payloadValidation key => s!"Payload does not match stored record for idempotency key {key}"
  | itemNotFound key => s!"No idempotency record found for key {key}"
  | alreadyInProgress key => s!"Execution already in progress with idempotency key: {key}"
  | inconsistentState reason => "Inconsistent idempotency state: " ++ reason
  | persistence doing _ => "Persistence layer error: " ++ doing
  | invalidStatus status => "Invalid idempotency record status: " ++ status
  | configuration reason => "Configuration error: " ++ reason
  | serialization reason => "Serialization error: " ++ reason
  | handler failure => failure.text

/-- Does the engine try again after this error? -/
def isRetryable : Error → Bool
  | inconsistentState _ => true
  | _ => false

/-- Is this the wrapped function's own error? -/
def isHandler : Error → Bool
  | handler _ => true
  | _ => false

/-- Does another call hold the key? -/
def isAlreadyInProgress : Error → Bool
  | alreadyInProgress _ => true
  | _ => false

/-- The wrapped function's own error. -/
def handlerFailure? : Error → Option Failure
  | handler failure => some failure
  | _ => none

/-- The failure behind a persistence error. -/
def source? : Error → Option Failure
  | persistence _ source => some source
  | _ => none

/-- An error of a store as the engine reports it. -/
def orPersistence (doing : String) : Error → Error
  | handler failure => persistence doing failure
  | e => e

end Error

end AtMostOnce
