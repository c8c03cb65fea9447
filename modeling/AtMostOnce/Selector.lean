/-
Selectors with their source text.
-/
import AtMostOnce.Selector.Parser

namespace AtMostOnce

open AtMostOnce.Json

/-- A selector: its source text and the node it stands for. -/
structure Selector where
  source : String
  node : Selector.Node
  deriving Repr

namespace Selector

/-- The wording of a cause. -/
def Cause.text : Cause → String
  | unexpectedEnd => "unexpected end of expression"
  | expectedPrimary => "expected an identifier, '[', '\x7b' or '@'"
  | expectedField => "expected a field name after '.'"
  | unknownFunction name => s!"unknown function '{name}'"
  | expected c => s!"expected '{c}'"
  | expectedIndex => "expected an integer index"
  | expectedListCommaOrEnd => "expected ',' or ']'"
  | expectedKey => "expected a key name"
  | expectedHashCommaOrEnd => "expected ',' or '\x7d'"
  | unterminatedName => "unterminated quoted identifier"
  | invalidName reason => "invalid quoted identifier: " ++ reason
  | trailingInput => "unexpected trailing input"

/-- A text refused as a selector: the text, the byte offset of the fault, and its wording. -/
structure SyntaxError where
  source : String
  position : Nat
  detail : String
  deriving Repr, DecidableEq

/-- The wording of a refusal. -/
def SyntaxError.message (e : SyntaxError) : String :=
  "Invalid expression '" ++ e.source ++ s!"' at position {e.position}: " ++ e.detail

/-- How many bytes into the source reading stopped. -/
def Stop.position (s : Stop) (source : List Char) : Nat :=
  byteLength source - byteLength s.rest + s.ahead

/-- Reads a selector. -/
def parse (source : String) : Except SyntaxError Selector :=
  match parseNode source.toList with
  | .ok n => .ok ⟨source, n⟩
  | .error s => .error ⟨source, s.position source.toList, s.cause.text⟩

/-- The selector of the whole payload. -/
def identity : Selector := ⟨"", .current⟩

/-- Does the selector select the whole payload? -/
def isIdentity (s : Selector) : Bool :=
  match s.node with
  | .current => true
  | _ => false

/-- What the selector selects from a payload. -/
def search (s : Selector) (payload : Value) : Value := s.node.search payload

end Selector

end AtMostOnce
