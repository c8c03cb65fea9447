/-
What a server of fields is asked.

The server keeps fields under a key, and drops a key at the end of its time to live
if it has one.  Each operation happens at once; nothing holds between two of them.
-/
import AtMostOnce.Assoc
import AtMostOnce.Error

namespace AtMostOnce.FieldStore

/-- Fields and their values. -/
abbrev Fields := Assoc String String

/-- An operation of the server. -/
inductive Operation where
  /-- Sets a field unless the key has it already. -/
  | claim (key field value : String)
  /-- Sets fields, then the time to live in seconds. -/
  | write (key : String) (fields : Fields) (ttl : Option Int)
  /-- Reads the fields of a key and its time to live. -/
  | read (key : String)
  /-- Puts a token under a key that holds nothing, for some seconds. -/
  | lock (key token : String) (ttl : Int)
  /-- Drops the key, then does what a write does, all at once. -/
  | replace (key : String) (fields : Fields) (ttl : Option Int)
  | delete (key : String)
  deriving DecidableEq, Repr

/-- What an operation yields when the server does not fail. -/
@[reducible] def Operation.Result : Operation → Type
  | claim _ _ _ => Bool
  | write _ _ _ => Unit
  | read _ => Fields × Int
  | lock _ _ _ => Bool
  | replace _ _ _ => Unit
  | delete _ => Unit

/-- The kinds of operations. -/
inductive Kind where
  | claim
  | write
  | read
  | lock
  | replace
  | delete
  deriving DecidableEq, Repr

/-- The kind of an operation. -/
def Operation.kind : Operation → Kind
  | claim _ _ _ => .claim
  | write _ _ _ => .write
  | read _ => .read
  | lock _ _ _ => .lock
  | replace _ _ _ => .replace
  | delete _ => .delete

/-- What an operation is answered with. -/
@[reducible] def Operation.Answer (op : Operation) : Type := Except Error op.Result

/-- The time to live of a key that holds nothing. -/
def noKey : Int := -2

/-- The time to live of a key without one. -/
def noTtl : Int := -1

end AtMostOnce.FieldStore
