/-
Reading selectors with a cursor.

These are the rules of the grammar once more, for a reader that keeps no text in its hands but an
offset into the bytes of the source.  Such a reader can go wrong where a rule on texts cannot: it
may look for a text between two offsets that are not both places between characters, or for the
bytes behind an offset past the end, and then it crashes.  A backslash in a quoted name moves the
cursor by two bytes, whatever stands there.

The reader leaves a mark of every move, of every cut and of every rule that has taken something, so
that one can tell of each of them whether it kept within the source (`Mark.Within`).
-/
import AtMostOnce.Json.Format
import AtMostOnce.Proofs.Selector.Octets

namespace AtMostOnce.Selector.Cursor

open AtMostOnce.Json

/-- What a mark tells. -/
inductive Mark where
  /-- The cursor was moved to an offset. -/
  | moved (target : Nat)
  /-- The text between two offsets was asked for. -/
  | cut (start stop : Nat)
  /-- The bytes from an offset on were asked for. -/
  | cutBytes (start : Nat)
  /-- A rule has taken what stands between two offsets. -/
  | took (start stop : Nat)
  deriving DecidableEq

/-- What was marked is within the source; the cursor may stand one byte past its end. -/
def Mark.Within (source : String) : Mark → Prop
  | moved target => target ≤ source.utf8ByteSize + 1
  | cut start stop =>
    start ≤ stop ∧ stop ≤ source.utf8ByteSize ∧
      String.Pos.Raw.IsValid source ⟨start⟩ ∧ String.Pos.Raw.IsValid source ⟨stop⟩
  | cutBytes start => start ≤ source.utf8ByteSize
  | took start stop => start < stop ∧ stop ≤ source.utf8ByteSize

/-- Where the cursor stands, and the marks so far. -/
structure State where
  offset : Nat
  marks : List Mark

/-- Why reading ends early. -/
inductive Halt where
  | refused (e : SyntaxError)
  /-- What was asked for is not there. -/
  | crashed

/-- A rule that moves a cursor; whatever comes of it, the marks stay. -/
abbrev Scan (α : Type) := EStateM Halt State α

/-! ### Moves and marks -/

/-- Where the cursor stands. -/
def offset : Scan Nat := return (← get).offset

/-- Leaves a mark. -/
def mark (m : Mark) : Scan Unit := modify fun st => { st with marks := st.marks ++ [m] }

/-- Moves the cursor on by some bytes. -/
def advance (count : Nat) : Scan Unit := do
  let target := (← offset) + count
  modify fun st => { st with offset := target }
  mark (.moved target)

/-- A rule that leaves a mark of what it has taken. -/
def taking {α : Type} (scan : Scan α) : Scan α := do
  let start ← offset
  let a ← scan
  mark (.took start (← offset))
  return a

section

variable (source : String)

/-- Stops where the cursor stands. -/
def refuse {α : Type} (cause : Cause) : Scan α := do
  throw (.refused ⟨source, ← offset, cause.text⟩)

/-- The byte at the cursor, as the character of its code. -/
def peek : Scan (Option Char) := return (Text.octets source)[← offset]?

/-- Passes bytes as long as they are of a class. -/
def skip (p : Char → Bool) : Scan Unit := do
  advance (((Text.octets source).drop (← offset)).takeWhile p).length

/-- The text from an offset up to the cursor, if there is one. -/
def cut? (start : Nat) : Scan (Option String) := do
  let stop ← offset
  mark (.cut start stop)
  return Text.between? source start stop

/-- The text from an offset up to the cursor. -/
def cut (start : Nat) : Scan String := do
  match ← cut? source start with
  | some text => return text
  | none => throw .crashed

/-- Is the cursor at the end of the source, or past it? -/
def atEnd : Scan Bool := return source.utf8ByteSize ≤ (← offset)

/-! ### Names -/

/-- Takes one character, after blanks. -/
def expect (c : Char) : Scan Unit := taking do
  skip source isBlank
  if (← peek source) = some c then advance 1 else refuse source (.expected c)

/-- An identifier, as far as it goes. -/
def identifier : Scan String := taking do
  let start ← offset
  skip source continuesName
  cut source start

/-- Passes the bytes up to and with the first quote that no backslash precedes. -/
def closing : (fuel : Nat) → Scan Unit
  | 0 => refuse source .unterminatedName
  | fuel + 1 => do
    match ← peek source with
    | none => refuse source .unterminatedName
    | some c =>
      if c = '\\' then
        advance 2
        closing fuel
      else if c = '"' then advance 1
      else
        advance 1
        closing fuel

/-- The name that a string literal stands for. -/
def nameOf (literal : String) : Scan String :=
  match Format.string.parse literal with
  | .ok (.string name) => return name
  | .ok _ => throw .crashed
  | .error f => refuse source (.invalidName (f.message literal))

/-- A quoted name, from its opening quote on; a literal that is not there is read as the empty
text. -/
def quoted : Scan String := taking do
  let start ← offset
  advance 1
  closing source (source.utf8ByteSize + 1)
  nameOf source ((← cut? source start).getD "")

/-! ### Indexes -/

/-- From an opening bracket in front: is this an index? -/
def looksLikeIndex : Scan Bool := do
  let start := (← offset) + 1
  mark (.cutBytes start)
  if start ≤ source.utf8ByteSize then
    return Selector.looksLikeIndex ((Text.octets source).drop start)
  else throw .crashed

/-- Passes a minus sign, if there is one. -/
def sign : Scan Unit := do
  if (← peek source) = some '-' then advance 1 else return ()

/-- An index, from its opening bracket on. -/
def index : Scan Node := taking do
  expect source '['
  skip source isBlank
  let start ← offset
  sign source
  skip source Char.isDigit
  let digits ← cut source start
  match Word.ofDigits? digits.toList with
  | none => refuse source .expectedIndex
  | some i =>
    expect source ']'
    return .index i

/-! ### Brackets -/

/-- The items of a list after the first, up to and with the closing bracket. -/
def moreItems (inner : Scan Node) : (fuel : Nat) → Scan (List Node)
  | 0 => refuse source .expectedListCommaOrEnd
  | fuel + 1 => do
    skip source isBlank
    match ← peek source with
    | none => refuse source .expectedListCommaOrEnd
    | some c =>
      if c = ',' then
        advance 1
        let n ← inner
        let ns ← moreItems inner fuel
        return n :: ns
      else if c = ']' then
        advance 1
        return []
      else refuse source .expectedListCommaOrEnd

/-- A list, from its opening bracket on. -/
def list (inner : Scan Node) : Scan Node := taking do
  expect source '['
  let n ← inner
  let ns ← moreItems source inner (source.utf8ByteSize + 1)
  return .list (n :: ns)

/-- The name of a hash entry. -/
def entryName : Scan String := do
  skip source isBlank
  match ← peek source with
  | none => refuse source .expectedKey
  | some c =>
    if c = '"' then quoted source
    else if startsName c then identifier source
    else refuse source .expectedKey

/-- The entries of a hash, up to and with the closing brace. -/
def entries (inner : Scan Node) : (fuel : Nat) → Scan (List (String × Node))
  | 0 => refuse source .expectedKey
  | fuel + 1 => do
    let name ← entryName source
    expect source ':'
    let n ← inner
    skip source isBlank
    match ← peek source with
    | none => refuse source .expectedHashCommaOrEnd
    | some c =>
      if c = ',' then
        advance 1
        let es ← entries inner fuel
        return (name, n) :: es
      else if c = '\x7d' then
        advance 1
        return [(name, n)]
      else refuse source .expectedHashCommaOrEnd

/-- A hash, from its opening brace on. -/
def hash (inner : Scan Node) : Scan Node := taking do
  expect source '\x7b'
  let es ← entries source inner (source.utf8ByteSize + 1)
  return .hash es

/-! ### Expressions -/

/-- The argument of a function, from its opening parenthesis on. -/
def function (inner : Scan Node) (name : String) : Scan Node := taking do
  if name.toList ≠ Node.decoderName then refuse source (.unknownFunction name)
  else
    expect source '('
    let n ← inner
    expect source ')'
    return .decoded n

/-- A field name on its own, or the function of that name. -/
def nameOrFunction (inner : Scan Node) : Scan Node := do
  let name ← identifier source
  skip source isBlank
  if (← peek source) = some '(' then function source inner name else return .field name

/-- What an expression starts with. -/
def primary (inner : Scan Node) : Scan Node := taking do
  skip source isBlank
  match ← peek source with
  | none => refuse source .unexpectedEnd
  | some c =>
    if c = '[' then
      if ← looksLikeIndex source then index source else list source inner
    else if c = '\x7b' then hash source inner
    else if c = '"' then return .field (← quoted source)
    else if c = '@' then
      advance 1
      return .current
    else if startsName c then nameOrFunction source inner
    else refuse source .expectedPrimary

/-- What may stand behind a dot. -/
def afterDot (inner : Scan Node) : Scan Node := taking do
  skip source isBlank
  match ← peek source with
  | none => refuse source .expectedField
  | some c =>
    if c = '"' then return .field (← quoted source)
    else if c = '[' then list source inner
    else if c = '\x7b' then hash source inner
    else if startsName c then return .field (← identifier source)
    else refuse source .expectedField

/-- The steps behind a node. -/
def steps (inner : Scan Node) : (fuel : Nat) → Node → Scan Node
  | 0, n => return n
  | fuel + 1, n => do
    skip source isBlank
    match ← peek source with
    | none => return n
    | some c =>
      if c = '.' then
        advance 1
        let m ← afterDot source inner
        steps inner fuel (.chain n m)
      else if c = '[' then
        let m ← index source
        steps inner fuel (.chain n m)
      else return n

/-- An expression that nests fewer than `depth` brackets. -/
def expression : (depth : Nat) → Scan Node
  | 0 => refuse source .unexpectedEnd
  | depth + 1 => taking do
    let n ← primary source (expression depth)
    steps source (expression depth) (source.utf8ByteSize + 1) n

/-- A whole source as a node; a source of blanks selects everything. -/
def node : Scan Node := do
  skip source isBlank
  if ← atEnd source then return .current
  else
    let n ← expression source (source.utf8ByteSize + 1)
    skip source isBlank
    if ← atEnd source then return n else refuse source .trailingInput

/-- Reads a source from its start. -/
def read : EStateM.Result Halt State Node := (node source).run ⟨0, []⟩

end

end AtMostOnce.Selector.Cursor
