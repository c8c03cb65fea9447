/-
Formats: the JSON texts and values that stand for one kind of datum.

A format reads a text and converts a value; what it yields is a value in the
format's own form, so that its text is the datum's text.  Both ways refuse the same
data for the same cause.  From a text the fault also has a place: behind a scalar
that was taken, in front of a bracket that was not, and behind the closing bracket
when an object lacks a field or an array an element.
-/
import AtMostOnce.Json.Skip

namespace AtMostOnce.Json

/-- How data of one kind are written. -/
structure Format where
  /-- What a message calls the format. -/
  expected : String
  /-- Takes a datum off a text in which `depth` more brackets may open. -/
  read : (depth : Nat) → Reader Value
  /-- The datum that a value stands for. -/
  convert : Value → Except Cause Value

namespace Format

/-! ### Refusals -/

/-- What a value is found to be. -/
def found : Value → Found
  | .null => .null
  | .bool b => .bool b
  | .number (.integer n) => .integer n
  | .number (.double bits) => .double bits
  | .string s => .string s
  | .array _ => .sequence
  | .object _ => .map

/-- Reads a value in order to say that it has the wrong type; arrays and objects are not entered. -/
def refuse (expected : String) : Reader Value := fun cs =>
  match skipBlanks cs with
  | [] => .error (.at_ .endOfValue [])
  | c :: rest =>
    if c = '[' then .error (.before (.wrongType .sequence expected) (c :: rest))
    else if c = '\x7b' then .error (.before (.wrongType .map expected) (c :: rest))
    else
      match valueWith none (c :: rest) with
      | .error f => .error f
      | .ok (v, rest) => .error (.before (.wrongType (found v) expected) rest)

/-- Reads a scalar that `accept` allows and refuses any other value. -/
def readScalar (expected : String) (starts : Char → Bool) (accept : Value → Except Cause Value) :
    Reader Value := fun cs =>
  match skipBlanks cs with
  | [] => .error (.at_ .endOfValue [])
  | c :: rest =>
    if starts c then
      match valueWith none (c :: rest) with
      | .error f => .error f
      | .ok (v, rest) =>
        match accept v with
        | .ok v => .ok (v, rest)
        | .error cause => .error (.before cause rest)
    else refuse expected (c :: rest)

/-- A format of scalars: those that start as `starts` says and that `accept` allows. -/
def scalar (expected : String) (starts : Char → Bool) (accept : Value → Except Cause Value) :
    Format where
  expected := expected
  read _ := readScalar expected starts accept
  convert := accept

/-! ### Scalars -/

/-- Does a number start here? -/
def startsNumber (c : Char) : Bool := c = '-' || c.isDigit

/-- Any value. -/
def any : Format where
  expected := "any valid JSON value"
  read depth := value depth
  convert v := .ok v

/-- Integers from `least` to `greatest`. -/
def integer (name : String) (least greatest : Int) : Format :=
  scalar name startsNumber fun
    | .number (.integer n) =>
      if least ≤ n ∧ n ≤ greatest then .ok (.number (.integer n))
      else .error (.wrongValue (.integer n) name)
    | v => .error (.wrongType (found v) name)

/-- Doubles; an integer stands for the double closest to it. -/
def double : Format :=
  scalar "f64" startsNumber fun
    | .number (.integer n) => .ok (.number (signed (0 ≤ n) (Binary64.nearest n.natAbs 1)))
    | .number (.double bits) => .ok (.number (.double bits))
    | v => .error (.wrongType (found v) "f64")

/-- Booleans. -/
def boolean : Format :=
  scalar "a boolean" (fun c => c = 't' || c = 'f') fun
    | .bool b => .ok (.bool b)
    | v => .error (.wrongType (found v) "a boolean")

/-- Strings. -/
def string : Format :=
  scalar "a string" (· = '"') fun
    | .string s => .ok (.string s)
    | v => .error (.wrongType (found v) "a string")

/-- The single datum `null`. -/
def unit : Format :=
  scalar "unit" (· = 'n') fun
    | .null => .ok .null
    | v => .error (.wrongType (found v) "unit")

/-! ### Composite formats -/

/-- A datum of another format, or `null`. -/
def optional (f : Format) : Format where
  expected := f.expected
  read depth cs :=
    match skipBlanks cs with
    | 'n' :: rest => keyword Value .null ['u', 'l', 'l'] rest
    | cs => f.read depth cs
  convert
    | .null => .ok .null
    | v => f.convert v

/-- Reads what stands in a bracket, at one depth less. -/
def enter {α : Type} (depth : Nat) (r : (depth : Nat) → Reader α) (opening : List Char) :
    Reader α :=
  match depth with
  | 0 => fun _ => .error (.at_ .tooDeep opening)
  | depth + 1 => r depth

/-- Arrays of data of another format. -/
def list (f : Format) : Format where
  expected := "a sequence"
  read depth cs :=
    match skipBlanks cs with
    | '[' :: rest =>
      enter depth (fun depth => arrayOf (f.read depth)) ('[' :: rest) rest
    | cs => refuse "a sequence" cs
  convert
    | .array items => (items.mapM f.convert).map .array
    | v => .error (.wrongType (found v) "a sequence")

/-! ### Named fields -/

/-- The fields of a record format. -/
abbrev Fields := List (String × Format)

/-- The format of a field. -/
def field? (fields : Fields) (name : String) : Option Format :=
  (fields.find? fun f => f.1 = name).map Prod.snd

/-- The data of the fields in their order, or the first one that is missing. -/
def collect : Fields → Members → Except Cause Members
  | [], _ => .ok []
  | (name, _) :: fields, data =>
    match data.get? name with
    | none => .error (.missingField name)
    | some v => (collect fields data).map ((name, v) :: ·)

/-- What a message calls so many elements. -/
def elements (n : Nat) : String := if n = 1 then s!"{n} element" else s!"{n} elements"

/-- The rest behind the closing brace if it comes next. -/
def behindBrace (cs : List Char) : List Char :=
  match skipBlanks cs with
  | '\x7d' :: rest => rest
  | rest => rest

/-- The members of an object whose keys may be fields, up to the closing brace. -/
def readMembers (fields : Fields) (depth : Nat) :
    (fuel : Nat) → (first : Bool) → Members → Reader Members
  | 0, _, _, cs => .error (.at_ .endOfObject cs)
  | fuel + 1, first, data, cs =>
    match nextMember first cs with
    | .error f => .error f
    | .ok (false, rest) => .ok (data, rest)
    | .ok (true, rest) =>
      match stringLiteral rest with
      | .error f => .error f
      | .ok (key, rest) =>
        match field? fields key with
        | none =>
          match colon rest with
          | .error f => .error f
          | .ok ((), rest) =>
            match Skip.value rest with
            | .error f => .error f
            | .ok rest => readMembers fields depth fuel false data rest
        | some format =>
          if (data.get? key).isSome then
            .error (.before (.duplicateField key) (behindBrace rest))
          else
            match colon rest with
            | .error f => .error f
            | .ok ((), rest) =>
              match format.read depth rest with
              | .error f => .error f
              | .ok (v, rest) =>
                readMembers fields depth fuel false (data ++ [(key, v)]) rest

/-- An object with the given fields, after its opening brace. -/
def readObject (fields : Fields) (depth : Nat) : Reader Value := fun cs =>
  match readMembers fields depth (cs.length + 1) true [] cs with
  | .error f => .error f
  | .ok (data, rest) =>
    match collect fields data with
    | .error cause => .error (.before cause (behindBrace rest))
    | .ok data =>
      match endObject rest with
      | .error f => .error f
      | .ok ((), rest) => .ok (.object data, rest)

/-- The elements of an array that stand for the fields in their order. -/
def readElements (expected : String) (depth : Nat) : Fields → (count : Nat) → Reader Members
  | [], _, cs => .ok ([], cs)
  | (name, format) :: fields, count, cs =>
    match nextItem (count = 0) cs with
    | .error f => .error f
    | .ok (false, rest) =>
      match endList rest with
      | .ok ((), rest) => .error (.before (.wrongLength count expected) rest)
      | .error _ => .error (.before (.wrongLength count expected) rest)
    | .ok (true, rest) =>
      match format.read depth rest with
      | .error f => .error f
      | .ok (v, rest) =>
        match readElements expected depth fields (count + 1) rest with
        | .error f => .error f
        | .ok (data, rest) => .ok ((name, v) :: data, rest)

/-- An array that stands for the fields in their order, after its opening bracket. -/
def readArray (expected : String) (fields : Fields) (depth : Nat) : Reader Value := fun cs =>
  match readElements expected depth fields 0 cs with
  | .error f => .error f
  | .ok (data, rest) =>
    match endList rest with
    | .error f => .error f
    | .ok ((), rest) => .ok (.object data, rest)

/-- Converts the members whose keys are fields, in the order in which they are listed. -/
def convertMembers (fields : Fields) : Members → Except Cause Members
  | [] => .ok []
  | (key, v) :: ms =>
    match field? fields key with
    | none => convertMembers fields ms
    | some format =>
      match format.convert v with
      | .error cause => .error cause
      | .ok v => (convertMembers fields ms).map ((key, v) :: ·)

/-- Converts the elements that stand for the fields in their order. -/
def convertElements (expected : String) : Fields → (count : Nat) → List Value →
    Except Cause (Members × List Value)
  | [], _, items => .ok ([], items)
  | _ :: _, count, [] => .error (.wrongLength count expected)
  | (name, format) :: fields, count, v :: items =>
    match format.convert v with
    | .error cause => .error cause
    | .ok v =>
      (convertElements expected fields (count + 1) items).map fun (data, left) =>
        ((name, v) :: data, left)

/-- Objects with the given fields and perhaps others, or arrays of just their data. -/
def struct (name : String) (fields : Fields) : Format where
  expected := "struct " ++ name
  read depth cs :=
    let called := s!"struct {name} with " ++ elements fields.length
    match skipBlanks cs with
    | '[' :: rest => enter depth (readArray called fields) ('[' :: rest) rest
    | '\x7b' :: rest => enter depth (readObject fields) ('\x7b' :: rest) rest
    | cs => refuse ("struct " ++ name) cs
  convert
    | .array items =>
      match convertElements (s!"struct {name} with " ++ elements fields.length) fields 0 items with
      | .error cause => .error cause
      | .ok (data, []) => .ok (.object data)
      | .ok (_, _ :: _) => .error (.wrongLength items.length "fewer elements in array")
    | .object ms =>
      match convertMembers fields ms with
      | .error cause => .error cause
      | .ok data => (collect fields data).map .object
    | v => .error (.wrongType (found v) ("struct " ++ name))

/-! ### Choices -/

/-- The name of a variant: a string that is one of the names. -/
def variant (names : List String) : Reader String := fun cs =>
  match readScalar "variant identifier" (· = '"')
      (fun
        | .string s =>
          if names.contains s then .ok (.string s) else .error (.unknownVariant s names)
        | v => .error (.wrongType (found v) "variant identifier")) cs with
  | .ok (.string s, rest) => .ok (s, rest)
  | .ok (_, rest) => .error (.before .expectedValue rest)
  | .error f => .error f

/-- The name of a variant as the key of an object, after the opening brace. -/
def variantKey (names : List String) : Reader String := fun cs =>
  match skipBlanks cs with
  | [] => .error (.at_ .endOfObject [])
  | c :: rest =>
    if c = '"' then variant names (c :: rest)
    else if c = '\x7d' then .error (.at_ .expectedValue (c :: rest))
    else .error (.at_ .keyNotString (c :: rest))

/-- One of several names: the name itself, or an object that maps it to `null`. -/
def readChoice (names : List String) (depth : Nat) : Reader String := fun cs =>
  match skipBlanks cs with
  | [] => .error (.at_ .endOfValue [])
  | c :: rest =>
    if c = '"' then variant names (c :: rest)
    else if c = '\x7b' then
      enter depth (fun depth cs =>
        match variantKey names cs with
        | .error f => .error f
        | .ok (name, rest) =>
          match colon rest with
          | .error f => .error f
          | .ok ((), rest) =>
            match unit.read depth rest with
            | .error f => .error f
            | .ok (_, rest) =>
              match skipBlanks rest with
              | '\x7d' :: rest => .ok (name, rest)
              | [] => .error (.before .endOfObject [])
              | rest => .error (.before .expectedValue rest)) (c :: rest) rest
    else .error (.at_ .expectedValue (c :: rest))

/-! ### Whole texts -/

/-- The datum that a text stands for. -/
def parse (f : Format) (source : String) : Except Fault Value :=
  whole (f.read maxDepth) source.toList

end Format

end AtMostOnce.Json
