/-
How results are stored.

An encoding turns the wrapped function's result into the text kept in a completed
record, and back when the result is replayed.  Both ways know the record that the
text belongs to, and both may fail.
-/
import AtMostOnce.Error
import AtMostOnce.Json.Format

namespace AtMostOnce

/-- Which way a result was going. -/
inductive Direction where
  | storing
  | replaying
  deriving DecidableEq, Repr

/-- A result that could not be stored or replayed. -/
structure EncodingError where
  direction : Direction
  detail : String
  deriving DecidableEq, Repr

/-- The wording of an encoding error. -/
def EncodingError.message (e : EncodingError) : String :=
  match e.direction with
  | .storing => "failed to store result: " ++ e.detail
  | .replaying => "failed to replay stored result: " ++ e.detail

/-- An encoding error as an error of the call. -/
def EncodingError.toError (e : EncodingError) : Error := .serialization e.message

/-- The record that a result belongs to. -/
structure EncodingContext where
  key : Key
  functionName : String
  deriving DecidableEq, Repr

/-- How results of a type are stored and replayed. -/
structure Encoding (α : Type) where
  store : EncodingContext → α → Except EncodingError String
  replay : EncodingContext → String → Except EncodingError α

namespace Encoding

/-- What the JSON encoding is called. -/
def jsonName : String := "JsonSerDes"

/-- Results of a format, stored as their JSON text. -/
def json (f : Json.Format) : Encoding Json.Value where
  store _ v := .ok v.text
  replay _ text :=
    match f.parse text with
    | .ok v => .ok v
    | .error fault => .error ⟨.replaying, fault.message text⟩

end Encoding

end AtMostOnce
