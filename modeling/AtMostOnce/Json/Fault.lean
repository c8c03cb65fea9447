/-
What can be wrong with a JSON text, and where.

A reader stops at the text that is left; `Fault` keeps the cause, that rest, and
how many bytes past its start the fault is reported.  Only when a whole source
text is known does `Fault.place` turn this into a line and a column, both
counted in bytes, so that readers never carry a position along.
-/
import AtMostOnce.Json.Printer
import AtMostOnce.Text.Quoted

namespace AtMostOnce.Json

/-- What stood where something else was wanted. -/
inductive Found where
  | null
  | bool (b : Bool)
  | integer (n : Int)
  | double (bits : Nat)
  | string (s : String)
  | sequence
  | map
  deriving Repr

/-- Why a text, or a value, was refused. -/
inductive Cause where
  | endOfValue
  | endOfList
  | endOfObject
  | endOfString
  | expectedColon
  | expectedListCommaOrEnd
  | expectedObjectCommaOrEnd
  | expectedIdent
  | expectedValue
  | invalidEscape
  | invalidNumber
  | numberOutOfRange
  | controlCharacter
  | keyNotString
  | loneSurrogate
  | unfinishedSurrogate
  | trailingComma
  | trailingCharacters
  | tooDeep
  | wrongType (found : Found) (expected : String)
  | wrongValue (found : Found) (expected : String)
  | wrongLength (length : Nat) (expected : String)
  | missingField (name : String)
  | duplicateField (name : String)
  | unknownVariant (name : String) (expected : List String)
  deriving Repr

/-- A fault while reading: its cause, the text left, and how far past the start of that text
it is reported. -/
structure Fault where
  cause : Cause
  rest : List Char
  ahead : Nat
  deriving Repr

/-- A reader takes a value off the front of a text and leaves the rest. -/
abbrev Reader (α : Type) := List Char → Except Fault (α × List Char)

namespace Fault

/-- A fault reported just before the rest. -/
def before (cause : Cause) (rest : List Char) : Fault := ⟨cause, rest, 0⟩

/-- A fault reported at the character that the rest starts with, by the place after it. -/
def at_ (cause : Cause) (rest : List Char) : Fault := ⟨cause, rest, 1⟩

end Fault

/-! ### Places -/

/-- The length of a text in UTF-8. -/
def byteLength : List Char → Nat
  | [] => 0
  | c :: cs => c.utf8Size + byteLength cs

/-- The line and the column that lie `offset` bytes into a text, from a given line and column. -/
def placeFrom (line column : Nat) : List Char → Nat → Nat × Nat
  | [], offset => (line, column + offset)
  | c :: cs, offset =>
    if offset = 0 then (line, column)
    else if c = '\n' then placeFrom (line + 1) 0 cs (offset - 1)
    else if offset ≤ c.utf8Size then (line, column + offset)
    else placeFrom line (column + c.utf8Size) cs (offset - c.utf8Size)

/-- How many bytes into its source a fault is reported, never past the end. -/
def Fault.offset (f : Fault) (source : List Char) : Nat :=
  min (byteLength source) (byteLength source - byteLength f.rest + f.ahead)

/-- The line, from one, and the column at which a fault is reported. -/
def Fault.place (f : Fault) (source : List Char) : Nat × Nat :=
  placeFrom 1 0 source (f.offset source)

/-! ### Wording -/

/-- The wording of what was found. -/
def Found.text : Found → String
  | .null => "null"
  | .bool true => "boolean `true`"
  | .bool false => "boolean `false`"
  | .integer n => "integer `" ++ Text.decimal n ++ "`"
  | .double bits => "floating point `" ++ String.ofList (Number.double bits).render ++ "`"
  | .string s => "string " ++ Text.quoted s
  | .sequence => "sequence"
  | .map => "map"

/-- The names between backquotes, with commas between them. -/
def backquotedNames : List String → String
  | [] => ""
  | [n] => "`" ++ n ++ "`"
  | n :: ns => "`" ++ n ++ "`, " ++ backquotedNames ns

/-- The wording of a choice between names. -/
def choiceText : List String → String
  | [a] => "`" ++ a ++ "`"
  | [a, b] => "`" ++ a ++ "` or `" ++ b ++ "`"
  | ns => "one of " ++ backquotedNames ns

/-- The wording of a cause. -/
def Cause.text : Cause → String
  | endOfValue => "EOF while parsing a value"
  | endOfList => "EOF while parsing a list"
  | endOfObject => "EOF while parsing an object"
  | endOfString => "EOF while parsing a string"
  | expectedColon => "expected `:`"
  | expectedListCommaOrEnd => "expected `,` or `]`"
  | expectedObjectCommaOrEnd => "expected `,` or `\x7d`"
  | expectedIdent => "expected ident"
  | expectedValue => "expected value"
  | invalidEscape => "invalid escape"
  | invalidNumber => "invalid number"
  | numberOutOfRange => "number out of range"
  | controlCharacter => "control character (\\u0000-\\u001F) found while parsing a string"
  | keyNotString => "key must be a string"
  | loneSurrogate => "lone leading surrogate in hex escape"
  | unfinishedSurrogate => "unexpected end of hex escape"
  | trailingComma => "trailing comma"
  | trailingCharacters => "trailing characters"
  | tooDeep => "recursion limit exceeded"
  | wrongType found expected => "invalid type: " ++ found.text ++ ", expected " ++ expected
  | wrongValue found expected => "invalid value: " ++ found.text ++ ", expected " ++ expected
  | wrongLength length expected => s!"invalid length {length}, expected {expected}"
  | missingField name => s!"missing field `{name}`"
  | duplicateField name => s!"duplicate field `{name}`"
  | unknownVariant name expected =>
    "unknown variant `" ++ name ++ "`, expected " ++ choiceText expected

/-- The wording of a fault in a source text, with its line and column. -/
def Fault.message (f : Fault) (source : String) : String :=
  let (line, column) := f.place source.toList
  f.cause.text ++ s!" at line {line} column {column}"

end AtMostOnce.Json
