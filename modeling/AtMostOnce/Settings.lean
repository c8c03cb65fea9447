/-
The settings of an engine.

Selectors are kept as texts, for settings may be described before they are read;
`Settings.validate` is what an engine is built after, and it reads both.  A limit of
zero seconds, or of zero cached records when there is a cache, would keep nothing and
is refused.
-/
import AtMostOnce.Environment
import AtMostOnce.HashFunction
import AtMostOnce.Record
import AtMostOnce.Selector
import AtMostOnce.Text.Description

namespace AtMostOnce

/-- The settings of an engine. -/
structure Settings where
  /-- Selects the identifying part of a payload; the empty text selects all of it. -/
  keySelector : String
  /-- Selects the part of a payload that must not change under a reused key. -/
  checkSelector : Option String
  /-- Refuse a payload in which the key selector finds nothing. -/
  keyRequired : Bool
  /-- How many seconds a record counts. -/
  expiresAfter : Nat
  /-- Keep completed records in a cache of the engine's own. -/
  useCache : Bool
  /-- How many records that cache holds. -/
  cacheSize : Nat
  hash : HashFunction
  /-- How many milliseconds a call may take; limits how long its record keeps its claim. -/
  budget : Option Nat
  /-- How often a call is tried again after an inconsistent state. -/
  maxRetries : Nat
  /-- Call the wrapped function without any record. -/
  disabled : Bool
  /-- Changes every replayed result. -/
  responseHook : Option (Json.Value → HookData → Json.Value)
  /-- The failures that leave the record in progress. -/
  nonRetryable : List (Failure → Bool)

namespace Settings

/-- The settings that hold when nothing is said, in an environment. -/
def initial (env : Environment) : Settings where
  keySelector := ""
  checkSelector := none
  keyRequired := false
  expiresAfter := 3600
  useCache := false
  cacheSize := 256
  hash := .blake2b128
  budget := none
  maxRetries := 2
  disabled := env.isDisabled
  responseHook := none
  nonRetryable := []

/-- Does a failure of the wrapped function give up the record? -/
def rollsBack (s : Settings) (f : Failure) : Bool := !s.nonRetryable.any fun accepts => accepts f

/-- A selector of the settings. -/
def parseSelector (source : String) : Except Error Selector :=
  match Selector.parse source with
  | .ok sel => .ok sel
  | .error e => .error (.configuration e.message)

/-- The selector of the identifying part. -/
def key (s : Settings) : Except Error Selector := parseSelector s.keySelector

/-- The selector of the checked part, if any. -/
def check (s : Settings) : Except Error (Option Selector) :=
  match s.checkSelector with
  | none => .ok none
  | some source => (parseSelector source).map some

/-- Refuses settings that no engine may have. -/
def validate (s : Settings) : Except Error Unit := do
  let _ ← s.key
  let _ ← s.check
  if s.expiresAfter = 0 then
    .error (.configuration "expires_after_seconds must be greater than zero")
  else if s.useCache ∧ s.cacheSize = 0 then
    .error (.configuration
      "local_cache_max_items must be greater than zero when the local cache is enabled")
  else .ok ()

/-! ### Description -/

/-- The text of a digest function in a description. -/
def hashText : HashFunction → String
  | .blake2b128 => "Blake2b128"
  | .blake2b512 => "Blake2b512"
  | .sha256 => "Sha256"
  | .sha512 => "Sha512"

/-- The settings as one line of text; of the functions only whether and how many there are. -/
def describe (s : Settings) : String :=
  Text.group "IdempotencyConfig"
    [("event_key_expression", Text.quoted s.keySelector),
     ("payload_validation_expression", Text.optional (s.checkSelector.map Text.quoted)),
     ("raise_on_no_idempotency_key", Text.truth s.keyRequired),
     ("expires_after_seconds", toString s.expiresAfter),
     ("use_local_cache", Text.truth s.useCache),
     ("local_cache_max_items", toString s.cacheSize),
     ("hash_function", hashText s.hash),
     ("remaining_time_budget_millis", Text.optional (s.budget.map toString)),
     ("max_retries", toString s.maxRetries),
     ("disabled", Text.truth s.disabled),
     ("response_hook", Text.truth s.responseHook.isSome),
     ("non_retryable_errors", toString s.nonRetryable.length)]

end Settings

end AtMostOnce
