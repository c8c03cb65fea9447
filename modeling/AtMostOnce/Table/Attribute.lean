/-
Items of a table.

An item is a map from attribute names to typed values.  Records use texts and
numbers, a number being a decimal text; any other type is read as `other`.  Which
JSON stands for a value is checked for the other types too, for one value that is
malformed spoils the whole item.
-/
import AtMostOnce.Assoc
import AtMostOnce.Json.Value
import AtMostOnce.Text.Base64
import AtMostOnce.Word

namespace AtMostOnce.Table

open AtMostOnce.Json (Value Members)

/-- A value of an attribute. -/
inductive Attribute where
  | text (s : String)
  | number (s : String)
  /-- A value of a type that records do not use. -/
  | other
  deriving DecidableEq, Repr, Inhabited

/-- An item: attributes by name. -/
abbrev Item := Assoc String Attribute

namespace Attribute

/-- The text of a text. -/
def text? : Attribute → Option String
  | text s => some s
  | _ => none

/-- The digits of a number. -/
def number? : Attribute → Option String
  | number s => some s
  | _ => none

/-- The integer that a number is, if it is a 64-bit one. -/
def integer? (a : Attribute) : Option Int := a.number?.bind fun s => Word.ofSignedDigits? s.toList

/-- The JSON of a value; of other types nothing is written. -/
def toJson : Attribute → Value
  | text s => .object [("S", .string s)]
  | number s => .object [("N", .string s)]
  | other => .object []

end Attribute

/-- The JSON of an item. -/
def Item.toJson (item : Item) : Value := .object (item.map fun e => (e.1, e.2.toJson))

/-- The JSON of placeholder names. -/
def namesToJson (names : Assoc String String) : Value :=
  .object (names.map fun e => (e.1, .string e.2))

/-! ### Reading -/

/-- Is this a string? -/
def isString : Value → Bool
  | .string _ => true
  | _ => false

/-- Is this an array of strings? -/
def isStringArray : Value → Bool
  | .array items => items.all isString
  | _ => false

/-- Is this a truth value? -/
def isBool : Value → Bool
  | .bool _ => true
  | _ => false

/-- Is this a string in base 64? -/
def isBase64 : Value → Bool
  | .string s => Text.Base64.isCanonical s.toList
  | _ => false

/-- Is this an array of strings in base 64? -/
def isBase64Array : Value → Bool
  | .array items => items.all isBase64
  | _ => false

mutual

/-- Does the JSON stand for a value of an attribute? -/
def isAttribute : Value → Bool
  | .object ms => isUnion false ms
  | _ => false

/-- Do the members name exactly one type, with a value of it?  Nulls do not count. -/
def isUnion (found : Bool) : Members → Bool
  | [] => found
  | (_, .null) :: rest => isUnion found rest
  | (name, v) :: rest =>
    if name = "__type" then isUnion found rest
    else !found && isTyped name v && isUnion true rest

/-- Is the JSON a value of the type?  A type of an unknown name may have any. -/
def isTyped (name : String) (v : Value) : Bool :=
  if name = "S" || name = "N" then isString v
  else if name = "SS" || name = "NS" then isStringArray v
  else if name = "B" then isBase64 v
  else if name = "BS" then isBase64Array v
  else if name = "BOOL" || name = "NULL" then isBool v
  else if name = "L" then
    match v with
    | .array items => allAttributes items
    | _ => false
  else if name = "M" then
    match v with
    | .object ms => allMembers ms
    | _ => false
  else true

/-- Does every JSON of a list stand for a value? -/
def allAttributes : List Value → Bool
  | [] => true
  | v :: rest => isAttribute v && allAttributes rest

/-- Does every member that is not null stand for a value? -/
def allMembers : Members → Bool
  | [] => true
  | (_, .null) :: rest => allMembers rest
  | (_, v) :: rest => isAttribute v && allMembers rest

end

/-- The value that well-formed JSON stands for. -/
def Attribute.ofMembers : Members → Attribute
  | [] => .other
  | ("S", .string s) :: _ => .text s
  | ("N", .string s) :: _ => .number s
  | _ :: rest => ofMembers rest

/-- The item that an object stands for, if its members are well formed; nulls are left out. -/
def Item.ofMembers? (ms : Members) : Option Item :=
  if allMembers ms then
    some (ms.filterMap fun e =>
      match e.2 with
      | .object v => some (e.1, Attribute.ofMembers v)
      | _ => none)
  else none

end AtMostOnce.Table
