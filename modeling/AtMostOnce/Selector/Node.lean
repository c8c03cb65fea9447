/-
Selectors: which part of a payload identifies a call.

A node is a path through a value.  Whatever does not apply, a field of a
non-object, an index past the end, a text that is no JSON, selects `null` rather
than failing, and a chain stops at the first `null`.
-/
import AtMostOnce.Word
import AtMostOnce.Json.Reader

namespace AtMostOnce.Selector

open AtMostOnce.Json

/-- A parsed selector. -/
inductive Node where
  | current
  | field (name : String)
  | index (i : Int)
  | chain (left right : Node)
  | list (items : List Node)
  | hash (entries : List (String × Node))
  | decoded (argument : Node)
  deriving BEq, Repr, Inhabited

namespace Node

/-! ### Selection -/

/-- The value under a field of an object. -/
def selectField (name : String) : Value → Value
  | .object ms => (Assoc.get? ms name).getD .null
  | _ => .null

/-- The item at an index of an array, a negative index counting from the end. -/
def selectIndex (i : Int) : Value → Value
  | .array items =>
    let resolved := if i < 0 then items.length + i else i
    if resolved < 0 then .null else (items[resolved.toNat]?).getD .null
  | _ => .null

/-- The value that a string holds as JSON text. -/
def decodeText : Value → Value
  | .string s =>
    match Json.parse s with
    | .ok v => v
    | .error _ => .null
  | _ => .null

mutual

/-- What a node selects from a value. -/
def search : Node → Value → Value
  | current, v => v
  | field name, v => selectField name v
  | index i, v => selectIndex i v
  | chain left right, v =>
    let w := search left v
    if w.isNull then .null else search right w
  | list items, v => if v.isNull then .null else .array (searchItems items v)
  | hash entries, v =>
    if v.isNull then .null else .object (Members.ofList (searchEntries entries v))
  | decoded argument, v => decodeText (search argument v)

/-- What each item selects. -/
def searchItems : List Node → Value → List Value
  | [], _ => []
  | n :: rest, v => search n v :: searchItems rest v

/-- What each entry selects, under its name. -/
def searchEntries : List (String × Node) → Value → Members
  | [], _ => []
  | (name, n) :: rest, v => (name, search n v) :: searchEntries rest v

end

/-! ### Shape -/

/-- May the node stand to the right of a chain? -/
def isStep : Node → Bool
  | field _ => true
  | index _ => true
  | list _ => true
  | hash _ => true
  | _ => false

mutual

/--
The nodes that have a text: chains grow to the left and end in a step, lists and
hashes are not empty, indexes are 64-bit integers.
-/
def wellFormed : Node → Bool
  | current => true
  | field _ => true
  | index i => decide (Word.InRange i)
  | chain left right => wellFormed left && isStep right && wellFormed right
  | list items => !items.isEmpty && wellFormedItems items
  | hash entries => !entries.isEmpty && wellFormedEntries entries
  | decoded argument => wellFormed argument

/-- Are all items well formed? -/
def wellFormedItems : List Node → Bool
  | [] => true
  | n :: rest => wellFormed n && wellFormedItems rest

/-- Are all entries well formed? -/
def wellFormedEntries : List (String × Node) → Bool
  | [] => true
  | (_, n) :: rest => wellFormed n && wellFormedEntries rest

end

/-! ### Text -/

/-- The name of the function that decodes JSON text. -/
def decoderName : List Char := "powertools_json".toList

/-- The dot that a step takes in front of it, unless it is an index. -/
def dot : Node → List Char
  | index _ => []
  | _ => ['.']

mutual

/-- The text of a node: every name a string literal, no blanks. -/
def render : Node → List Char
  | current => ['@']
  | field name => quote name
  | index i => '[' :: (Text.integerText i ++ [']'])
  | chain left right => render left ++ (dot right ++ render right)
  | list items => '[' :: (renderItems items ++ [']'])
  | hash entries => '\x7b' :: (renderEntries entries ++ ['\x7d'])
  | decoded argument => decoderName ++ '(' :: (render argument ++ [')'])

/-- Items with commas between them. -/
def renderItems : List Node → List Char
  | [] => []
  | [n] => render n
  | n :: m :: rest => render n ++ ',' :: renderItems (m :: rest)

/-- Entries with commas between them. -/
def renderEntries : List (String × Node) → List Char
  | [] => []
  | [(name, n)] => quote name ++ ':' :: render n
  | (name, n) :: e :: rest =>
    quote name ++ ':' :: (render n ++ ',' :: renderEntries (e :: rest))

end

end Node

end AtMostOnce.Selector
