/-
JSON values.

Integers are kept apart from fractional numbers: an integer between `-2^63` and
`2^64 - 1` stays exact, every other number is the bit pattern of a double.  An
object is a list of members; reading a text produces them in key order without
duplicates, while values built by hand may list them in any order.
-/
import AtMostOnce.Assoc

namespace AtMostOnce.Json

/-- A JSON number: an exact integer, or the bit pattern of a finite double. -/
inductive Number where
  | integer (n : Int)
  | double (bits : Nat)
  deriving DecidableEq, Repr, Inhabited

/-- A JSON value. -/
inductive Value where
  | null
  | bool (b : Bool)
  | number (n : Number)
  | string (s : String)
  | array (items : List Value)
  | object (members : List (String × Value))
  deriving BEq, Repr, Inhabited

/-- A list of members, as an object holds them. -/
abbrev Members := Assoc String Value

namespace Members

/-- Puts a value under a key, keeping key order; a value already there is replaced. -/
def insert (key : String) (value : Value) : Members → Members
  | [] => [(key, value)]
  | (k, v) :: rest =>
    if key < k then (key, value) :: (k, v) :: rest
    else if k = key then (key, value) :: rest
    else (k, v) :: insert key value rest

/-- The members in key order, the last of several values under one key winning. -/
def ofList (members : List (String × Value)) : Members :=
  members.foldl (fun acc m => insert m.1 m.2 acc) []

end Members

namespace Value

/-- Is this `null`? -/
def isNull : Value → Bool
  | null => true
  | _ => false

/-- The members of an object. -/
def members? : Value → Option Members
  | object ms => some ms
  | _ => none

/-! ### Key order -/

/-- Does one member's key come before or equal another's? -/
def keyLe (a b : String × Value) : Bool := decide (a.1 ≤ b.1)

mutual

/-- The value with the members of every object, at every depth, in key order. -/
def sortKeys : Value → Value
  | array items => array (sortItems items)
  | object ms => object ((sortMembers ms).mergeSort keyLe)
  | v => v

/-- Every item of a list with its keys in order. -/
def sortItems : List Value → List Value
  | [] => []
  | v :: rest => sortKeys v :: sortItems rest

/-- Every member's value with its keys in order. -/
def sortMembers : List (String × Value) → List (String × Value)
  | [] => []
  | (k, v) :: rest => (k, sortKeys v) :: sortMembers rest

end

/-! ### Material that identifies nothing -/

/--
Does the value carry no identifying data?  `null`, the empty string, the object
without members, and an array that holds nothing but `null`s.
-/
def isMissing : Value → Bool
  | null => true
  | bool _ => false
  | number _ => false
  | string s => s.isEmpty
  | array items => items.all isNull
  | object ms => ms.isEmpty

end Value

end AtMostOnce.Json
