/-
Descriptions: a name, and the fields that go with it in braces.
-/
import AtMostOnce.Text.Quoted

namespace AtMostOnce.Text

/-- The description of a datum that may be missing. -/
def optional : Option String → String
  | some s => "Some(" ++ s ++ ")"
  | none => "None"

/-- The description of a truth value. -/
def truth (b : Bool) : String := if b then "true" else "false"

/-- A name with its fields and their descriptions. -/
def group (name : String) (fields : List (String × String)) : String :=
  name ++ " \x7b " ++ ", ".intercalate (fields.map fun f => f.1 ++ ": " ++ f.2) ++ " \x7d"

end AtMostOnce.Text
