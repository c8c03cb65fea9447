/-
What the environment says.

Two things can be said: how the deployed function is called, which becomes part of
every scope, and whether new settings stand aside.  An empty name is no name, and
any word that is not a clear yes is a no.
-/
import AtMostOnce.Text.Blank

namespace AtMostOnce

/-- What the environment says: the deployed function's name, and whether to stand aside. -/
structure Environment where
  functionName : Option String
  disabled : Option String
  deriving Repr, Inhabited

namespace Environment

/-- The deployed function's name, unless it is empty. -/
def functionName? (env : Environment) : Option String :=
  match env.functionName with
  | some name => if name.isEmpty then none else some name
  | none => none

/-- Does a text say yes? -/
def isTruthy (s : String) : Bool :=
  let word := Text.lowercase (String.ofList (Text.trim s.toList))
  ["1", "y", "yes", "t", "true", "on"].contains word

/-- Does the environment ask to stand aside? -/
def isDisabled (env : Environment) : Bool :=
  match env.disabled with
  | some s => isTruthy s
  | none => false

end Environment

end AtMostOnce
