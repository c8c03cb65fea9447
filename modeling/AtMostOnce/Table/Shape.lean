/-
Shapes of replies.

The body of a success is an object whose members are known by name.  A known member is
null or of its shape, and any other member may be anything.  Which members are known
depends on what was asked.
-/
import AtMostOnce.Table.Attribute

namespace AtMostOnce.Table

open AtMostOnce.Json (Value Members)

/-- Is a member, if it is there, null or as it should be? -/
def memberFits (ms : Members) (name : String) (fits : Value → Bool) : Bool :=
  match Assoc.get? ms name with
  | none => true
  | some v => v.isNull || fits v

/-- Is this an object of well-formed attributes? -/
def isItem : Value → Bool
  | .object ms => allMembers ms
  | _ => false

/-- Is this a number?  One that is not finite is a string. -/
def isAmount : Value → Bool
  | .number _ => true
  | .string s => ["NaN", "Infinity", "-Infinity"].contains s
  | _ => false

/-- Does an object have amounts of capacity? -/
def hasAmounts (ms : Members) : Bool :=
  ["CapacityUnits", "ReadCapacityUnits", "WriteCapacityUnits"].all fun name =>
    memberFits ms name isAmount

/-- Is this the capacity of a table or of an index? -/
def isCapacity : Value → Bool
  | .object ms => hasAmounts ms
  | _ => false

/-- Is this an object of capacities by the names of indexes? -/
def isIndexCapacity : Value → Bool
  | .object ms => ms.all fun m => m.2.isNull || isCapacity m.2
  | _ => false

/-- Is this what a request has used up? -/
def isConsumption : Value → Bool
  | .object ms =>
    hasAmounts ms && memberFits ms "TableName" isString && memberFits ms "Table" isCapacity
      && memberFits ms "LocalSecondaryIndexes" isIndexCapacity
      && memberFits ms "GlobalSecondaryIndexes" isIndexCapacity
  | _ => false

/-- Is this a list of amounts? -/
def isRange : Value → Bool
  | .array items => items.all isAmount
  | _ => false

/-- Is this what is known of the items that share a partition? -/
def isCollection : Value → Bool
  | .object ms =>
    memberFits ms "ItemCollectionKey" isItem && memberFits ms "SizeEstimateRangeGB" isRange
  | _ => false

/-- Is this the body of a success of a request that reads? -/
def isReading (ms : Members) : Bool :=
  memberFits ms "Item" isItem && memberFits ms "ConsumedCapacity" isConsumption

/-- Is this the body of a success of a request that writes? -/
def isWriting (ms : Members) : Bool :=
  memberFits ms "Attributes" isItem && memberFits ms "ConsumedCapacity" isConsumption
    && memberFits ms "ItemCollectionMetrics" isCollection

/-- Is this the body of a refusal with a condition that did not hold? -/
def isRefusal (ms : Members) : Bool :=
  memberFits ms "Item" isItem && memberFits ms "message" isString

end AtMostOnce.Table
