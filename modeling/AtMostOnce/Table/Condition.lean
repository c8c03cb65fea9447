/-
Conditions and updates, as a table understands them.

A condition is a choice between conjunctions of tests, an update a list of
assignments.  Both speak of attributes and values by placeholders, whose meaning
goes along in two maps.  `text` is what is sent, `holds` and `apply` are what the
table makes of it.  An item that does not exist has no attributes.
-/
import AtMostOnce.Table.Attribute

namespace AtMostOnce.Table

/-- What placeholders stand for. -/
structure Bindings where
  names : Assoc String String
  values : Item
  deriving Repr

/-- The attribute of an item that a placeholder names. -/
def Bindings.attribute? (b : Bindings) (item : Item) (name : String) : Option Attribute :=
  (b.names.get? name).bind item.get?

/-! ### Conditions -/

/-- A test on one attribute. -/
inductive Test where
  | missing (name : String)
  | present (name : String)
  /-- A number less than another; false when the attribute is missing. -/
  | less (name value : String)
  | equal (name value : String)
  deriving DecidableEq, Repr

/-- A choice between conjunctions of tests. -/
abbrev Condition := List (List Test)

namespace Test

/-- The text of a test. -/
def text : Test → String
  | missing name => "attribute_not_exists(" ++ name ++ ")"
  | present name => "attribute_exists(" ++ name ++ ")"
  | less name value => name ++ " < " ++ value
  | equal name value => name ++ " = " ++ value

/-- Does an item pass a test? -/
def holds (b : Bindings) (item : Item) : Test → Bool
  | missing name => (b.attribute? item name).isNone
  | present name => (b.attribute? item name).isSome
  | less name value =>
    match (b.attribute? item name).bind Attribute.integer?,
        (b.values.get? value).bind Attribute.integer? with
    | some x, some y => decide (x < y)
    | _, _ => false
  | equal name value =>
    match b.attribute? item name, b.values.get? value with
    | some x, some y => x = y
    | _, _ => false

end Test

namespace Condition

/-- The text of a conjunction, in parentheses unless it is a single test. -/
def clauseText : List Test → String
  | [t] => t.text
  | ts => "(" ++ " AND ".intercalate (ts.map Test.text) ++ ")"

/-- The text of a condition. -/
def text (c : Condition) : String := " OR ".intercalate (c.map clauseText)

/-- Does an item meet a condition? -/
def holds (b : Bindings) (item : Item) (c : Condition) : Bool :=
  c.any fun clause => clause.all (Test.holds b item)

end Condition

/-! ### Updates -/

/-- Attributes that are set to values, by placeholders. -/
abbrev Update := List (String × String)

namespace Update

/-- The text of an update. -/
def text (u : Update) : String := "SET " ++ ", ".intercalate (u.map fun a => a.1 ++ " = " ++ a.2)

/-- The item after an update; an assignment with an unknown placeholder sets nothing. -/
def apply (b : Bindings) (u : Update) (item : Item) : Item :=
  u.foldl (fun item a =>
    match b.names.get? a.1, b.values.get? a.2 with
    | some name, some value => item.insert name value
    | _, _ => item) item

end Update

end AtMostOnce.Table
