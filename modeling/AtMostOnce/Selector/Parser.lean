/-
Reading selectors.

    expression := primary step*
    primary    := '@' | name | function | index | list | hash
    step       := '.' (name | list | hash) | index
    function   := "powertools_json" '(' expression ')'
    index      := '[' integer ']'
    list       := '[' expression (',' expression)* ']'
    hash       := '{' name ':' expression (',' name ':' expression)* '}'
    name       := identifier | string literal

A bracket in front opens an index when only spaces, an optional minus sign and
digits stand before the closing bracket, and a list otherwise; after another node
it always opens an index.

`expression` recurses on a bound for the nesting and hands itself to the rules for
what stands in brackets.  A bracket is a character, so the length of the text is
bound enough.
-/
import AtMostOnce.Selector.Node

namespace AtMostOnce.Selector

open AtMostOnce.Json

/-- Why a text is no selector. -/
inductive Cause where
  | unexpectedEnd
  | expectedPrimary
  | expectedField
  | unknownFunction (name : String)
  | expected (c : Char)
  | expectedIndex
  | expectedListCommaOrEnd
  | expectedKey
  | expectedHashCommaOrEnd
  | unterminatedName
  | invalidName (reason : String)
  | trailingInput
  deriving Repr

/-- Where reading stopped: the text left, and how many bytes past its start. -/
structure Stop where
  cause : Cause
  rest : List Char
  ahead : Nat
  deriving Repr

/-- A rule takes a node, or part of one, off the front of a text. -/
abbrev Rule (α : Type) := List Char → Except Stop (α × List Char)

/-- Stops right before the rest. -/
def stop (cause : Cause) (rest : List Char) : Stop := ⟨cause, rest, 0⟩

/-! ### Names -/

/-- May the character start an identifier? -/
def startsName (c : Char) : Bool := c.isAlpha || c = '_'

/-- May the character continue an identifier? -/
def continuesName (c : Char) : Bool := c.isAlphanum || c = '_'

/-- Splits a text behind its first quote that no backslash precedes. -/
def scanQuoted : Rule (List Char)
  | [] => .error ⟨.unterminatedName, [], 0⟩
  | c :: cs =>
    if c = '"' then .ok (['"'], cs)
    else if c = '\\' then
      match cs with
      | [] => .error ⟨.unterminatedName, [], 1⟩
      | d :: cs =>
        match scanQuoted cs with
        | .ok (inner, rest) => .ok ('\\' :: d :: inner, rest)
        | .error e => .error e
    else
      match scanQuoted cs with
      | .ok (inner, rest) => .ok (c :: inner, rest)
      | .error e => .error e

/-- A quoted name, after its opening quote: a JSON string literal. -/
def quotedName : Rule String := fun cs =>
  match scanQuoted cs with
  | .error e => .error e
  | .ok (inner, rest) =>
    match Json.whole stringLiteral inner with
    | .ok name => .ok (name, rest)
    | .error f =>
      -- The place of the fault counts the opening quote too.
      .error (stop (.invalidName (f.message (String.ofList ('"' :: inner)))) rest)

/-- An identifier, as far as it goes. -/
def identifier (cs : List Char) : String × List Char :=
  (String.ofList (cs.takeWhile continuesName), cs.dropWhile continuesName)

/-- Takes one character, after blanks. -/
def expect (c : Char) : Rule Unit := fun cs =>
  match skipBlanks cs with
  | d :: rest => if d = c then .ok ((), rest) else .error (stop (.expected c) (d :: rest))
  | [] => .error (stop (.expected c) [])

/-! ### Indexes -/

/-- The digits of an integer with an optional minus sign, as they stand. -/
def integerPart : List Char → List Char × List Char
  | '-' :: cs => ('-' :: cs.takeWhile Char.isDigit, cs.dropWhile Char.isDigit)
  | cs => (cs.takeWhile Char.isDigit, cs.dropWhile Char.isDigit)

/-- Is a space. -/
def isSpace (c : Char) : Bool := c = ' '

/-- After an opening bracket in front: is this an index? -/
def looksLikeIndex (cs : List Char) : Bool :=
  let cs := cs.dropWhile isSpace
  let cs := match cs with
    | '-' :: rest => rest
    | rest => rest
  match cs with
  | d :: _ =>
    d.isDigit &&
      match (cs.dropWhile Char.isDigit).dropWhile isSpace with
      | ']' :: _ => true
      | _ => false
  | [] => false

/-- An index, after its opening bracket. -/
def index : Rule Node := fun cs =>
  let (digits, rest) := integerPart (skipBlanks cs)
  match Word.ofDigits? digits with
  | none => .error (stop .expectedIndex rest)
  | some i =>
    match expect ']' rest with
    | .ok ((), rest) => .ok (.index i, rest)
    | .error e => .error e

/-! ### Brackets -/

/-- The items of a list after the first, up to and with the closing bracket. -/
def moreItems (inner : Rule Node) : (fuel : Nat) → Rule (List Node)
  | 0, cs => .error (stop .expectedListCommaOrEnd cs)
  | fuel + 1, cs =>
    match skipBlanks cs with
    | [] => .error (stop .expectedListCommaOrEnd [])
    | c :: rest =>
      if c = ',' then
        match inner rest with
        | .error e => .error e
        | .ok (n, rest) =>
          match moreItems inner fuel rest with
          | .error e => .error e
          | .ok (ns, rest) => .ok (n :: ns, rest)
      else if c = ']' then .ok ([], rest)
      else .error (stop .expectedListCommaOrEnd (c :: rest))

/-- A list, after its opening bracket. -/
def list (inner : Rule Node) : Rule Node := fun cs =>
  match inner cs with
  | .error e => .error e
  | .ok (n, rest) =>
    match moreItems inner (rest.length + 1) rest with
    | .error e => .error e
    | .ok (ns, rest) => .ok (.list (n :: ns), rest)

/-- The name of a hash entry. -/
def entryName : Rule String := fun cs =>
  match skipBlanks cs with
  | [] => .error (stop .expectedKey [])
  | c :: rest =>
    if c = '"' then quotedName rest
    else if startsName c then .ok (identifier (c :: rest))
    else .error (stop .expectedKey (c :: rest))

/-- The entries of a hash, up to and with the closing brace. -/
def entries (inner : Rule Node) : (fuel : Nat) → Rule (List (String × Node))
  | 0, cs => .error (stop .expectedKey cs)
  | fuel + 1, cs =>
    match entryName cs with
    | .error e => .error e
    | .ok (name, rest) =>
      match expect ':' rest with
      | .error e => .error e
      | .ok ((), rest) =>
        match inner rest with
        | .error e => .error e
        | .ok (n, rest) =>
          match skipBlanks rest with
          | [] => .error (stop .expectedHashCommaOrEnd [])
          | c :: rest =>
            if c = ',' then
              match entries inner fuel rest with
              | .error e => .error e
              | .ok (es, rest) => .ok ((name, n) :: es, rest)
            else if c = '\x7d' then .ok ([(name, n)], rest)
            else .error (stop .expectedHashCommaOrEnd (c :: rest))

/-- A hash, after its opening brace. -/
def hash (inner : Rule Node) : Rule Node := fun cs =>
  match entries inner (cs.length + 1) cs with
  | .error e => .error e
  | .ok (es, rest) => .ok (.hash es, rest)

/-! ### Expressions -/

/-- The argument of a function, from its opening parenthesis on. -/
def function (inner : Rule Node) (name : String) : Rule Node := fun cs =>
  if name.toList ≠ Node.decoderName then .error (stop (.unknownFunction name) cs)
  else
    match expect '(' cs with
    | .error e => .error e
    | .ok ((), rest) =>
      match inner rest with
      | .error e => .error e
      | .ok (n, rest) =>
        match expect ')' rest with
        | .error e => .error e
        | .ok ((), rest) => .ok (.decoded n, rest)

/-- A field name on its own, or the function of that name. -/
def nameOrFunction (inner : Rule Node) : Rule Node := fun cs =>
  let (name, rest) := identifier cs
  match skipBlanks rest with
  | [] => .ok (.field name, [])
  | c :: rest =>
    if c = '(' then function inner name (c :: rest) else .ok (.field name, c :: rest)

/-- What an expression starts with. -/
def primary (inner : Rule Node) : Rule Node := fun cs =>
  match skipBlanks cs with
  | [] => .error (stop .unexpectedEnd [])
  | c :: rest =>
    if c = '[' then if looksLikeIndex rest then index rest else list inner rest
    else if c = '\x7b' then hash inner rest
    else if c = '"' then
      match quotedName rest with
      | .ok (name, rest) => .ok (.field name, rest)
      | .error e => .error e
    else if c = '@' then .ok (.current, rest)
    else if startsName c then nameOrFunction inner (c :: rest)
    else .error (stop .expectedPrimary (c :: rest))

/-- What may stand behind a dot. -/
def afterDot (inner : Rule Node) : Rule Node := fun cs =>
  match skipBlanks cs with
  | [] => .error (stop .expectedField [])
  | c :: rest =>
    if c = '"' then
      match quotedName rest with
      | .ok (name, rest) => .ok (.field name, rest)
      | .error e => .error e
    else if c = '[' then list inner rest
    else if c = '\x7b' then hash inner rest
    else if startsName c then
      let (name, rest) := identifier (c :: rest)
      .ok (.field name, rest)
    else .error (stop .expectedField (c :: rest))

/-- The steps behind a node. -/
def steps (inner : Rule Node) : (fuel : Nat) → Node → Rule Node
  | 0, n, cs => .ok (n, cs)
  | fuel + 1, n, cs =>
    match skipBlanks cs with
    | [] => .ok (n, [])
    | c :: rest =>
      if c = '.' then
        match afterDot inner rest with
        | .ok (m, rest) => steps inner fuel (.chain n m) rest
        | .error e => .error e
      else if c = '[' then
        match index rest with
        | .ok (m, rest) => steps inner fuel (.chain n m) rest
        | .error e => .error e
      else .ok (n, c :: rest)

/-- An expression whose bracketed parts are read by `inner`. -/
def expressionWith (inner : Rule Node) : Rule Node := fun cs =>
  match primary inner cs with
  | .ok (n, rest) => steps inner (rest.length + 1) n rest
  | .error e => .error e

/-- An expression that nests fewer than `depth` brackets. -/
def expression : (depth : Nat) → Rule Node
  | 0 => fun cs => .error (stop .unexpectedEnd cs)
  | depth + 1 => expressionWith (expression depth)

/-- A whole text as a node; a text of blanks selects everything. -/
def parseNode (cs : List Char) : Except Stop Node :=
  match skipBlanks cs with
  | [] => .ok .current
  | c :: rest =>
    match expression (cs.length + 1) (c :: rest) with
    | .error e => .error e
    | .ok (n, rest) =>
      match skipBlanks rest with
      | [] => .ok n
      | rest => .error (stop .trailingInput rest)

end AtMostOnce.Selector
