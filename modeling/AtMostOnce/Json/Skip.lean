/-
Skipping a value that nobody wants.

The text has to be JSON still, but its strings need not stand for characters, its
numbers need not fit, and it may nest to any depth: the brackets that are open are
a list that the loop carries along.  Every step takes a character or hands over to
the other of two places in the loop, so twice the length bounds the steps.
-/
import AtMostOnce.Json.Reader

namespace AtMostOnce.Json.Skip

/-- An open bracket. -/
inductive Frame where
  | list
  | object
  deriving DecidableEq, Repr

/-- What is left of a text. -/
abbrev Rest := Except Fault (List Char)

/-- The rest behind a string literal, after its opening quote; a fault at a control character is
placed in front of it. -/
def stringRest : List Char → Rest
  | [] => .error (.before .endOfString [])
  | c :: cs =>
    if c = '"' then .ok cs
    else if c = '\\' then
      match cs with
      | [] => .error (.before .endOfString [])
      | e :: cs =>
        if e = 'u' then
          match cs with
          | h₁ :: h₂ :: h₃ :: h₄ :: cs' =>
            match hexQuad? h₁ h₂ h₃ h₄ with
            | some _ => stringRest cs'
            | none => .error (hexFault cs)
          | cs => .error (hexFault cs)
        else
          match shortEscape? e with
          | some _ => stringRest cs
          | none => .error (.at_ .invalidEscape (e :: cs))
    else if c.toNat < 0x20 then .error (.before .controlCharacter (c :: cs))
    else stringRest cs

/-- The rest behind an exponent, after its letter. -/
def exponentRest (cs : List Char) : Rest :=
  let cs := match cs with
    | '+' :: rest => rest
    | '-' :: rest => rest
    | rest => rest
  match cs with
  | [] => .error (.before .invalidNumber [])
  | c :: rest =>
    if c.isDigit then .ok (rest.dropWhile Char.isDigit)
    else .error (.at_ .invalidNumber (c :: rest))

/-- The rest behind the digits of a number: an exponent, or nothing. -/
def afterDigits : List Char → Rest
  | 'e' :: rest => exponentRest rest
  | 'E' :: rest => exponentRest rest
  | rest => .ok rest

/-- The rest behind a number, after its sign. -/
def numberRest : List Char → Rest
  | [] => .error (.before .invalidNumber [])
  | c :: cs =>
    if !c.isDigit then .error (.at_ .invalidNumber (c :: cs))
    else if c = '0' && startsWithDigit cs then .error (.at_ .invalidNumber cs)
    else
      match cs.dropWhile Char.isDigit with
      | '.' :: rest =>
        if startsWithDigit rest then afterDigits (rest.dropWhile Char.isDigit)
        else .error (.at_ .invalidNumber rest)
      | rest => afterDigits rest

/-- The rest behind a scalar, or nothing when a bracket opens instead. -/
def scalarRest (c : Char) (rest : List Char) : Option Rest :=
  let word (ws : List Char) : Option Rest := some ((keyword Unit () ws rest).map Prod.snd)
  if c = 'n' then word ['u', 'l', 'l']
  else if c = 't' then word ['r', 'u', 'e']
  else if c = 'f' then word ['a', 'l', 's', 'e']
  else if c = '-' then some (numberRest rest)
  else if c.isDigit then some (numberRest (c :: rest))
  else if c = '"' then some (stringRest rest)
  else if c = '[' || c = '\x7b' then none
  else some (.error (.at_ .expectedValue (c :: rest)))

/-- The fault of a text that ends within a bracket. -/
def endFault : Frame → Cause
  | .list => .endOfList
  | .object => .endOfObject

/-- The fault of an item that neither a comma nor the closing bracket follows. -/
def commaFault : Frame → Cause
  | .list => .expectedListCommaOrEnd
  | .object => .expectedObjectCommaOrEnd

/-- The closing bracket of a frame. -/
def closing : Frame → Char
  | .list => ']'
  | .object => '\x7d'

/-- The rest behind a key and its colon. -/
def keyRest (cs : List Char) : Rest :=
  match skipBlanks cs with
  | [] => .error (.at_ .endOfObject [])
  | c :: rest =>
    if c = '"' then
      match stringRest rest with
      | .error f => .error f
      | .ok rest => (colon rest).map Prod.snd
    else .error (.at_ .keyNotString (c :: rest))

/-- Where the loop is: in front of a value, or behind one in an open bracket. -/
inductive Place where
  | item
  | behind (comma : Bool)

/-- The rest behind a value, with the given brackets open, the innermost first. -/
def loop : (fuel : Nat) → Place → List Frame → List Char → Rest
  | 0, _, _, cs => .error (.at_ .expectedValue cs)
  | fuel + 1, .item, frames, cs =>
    match skipBlanks cs with
    | [] => .error (.at_ .endOfValue [])
    | c :: rest =>
      match scalarRest c rest with
      | some (.error f) => .error f
      | some (.ok rest) =>
        if frames.isEmpty then .ok rest else loop fuel (.behind true) frames rest
      | none => loop fuel (.behind false) ((if c = '[' then .list else .object) :: frames) rest
  | _ + 1, .behind _, [], cs => .ok cs
  | fuel + 1, .behind comma, frame :: frames, cs =>
    let next (cs : List Char) : Rest :=
      match frame with
      | .list => loop fuel .item (frame :: frames) cs
      | .object =>
        match keyRest cs with
        | .error f => .error f
        | .ok cs => loop fuel .item (frame :: frames) cs
    match skipBlanks cs with
    | [] => .error (.at_ (endFault frame) [])
    | c :: rest =>
      if c = ',' && comma then next rest
      else if c = closing frame then
        if frames.isEmpty then .ok rest else loop fuel (.behind true) frames rest
      else if comma then .error (.at_ (commaFault frame) (c :: rest))
      else next (c :: rest)

/-- The rest behind a value. -/
def value (cs : List Char) : Rest := loop (2 * cs.length + 2) .item [] cs

end AtMostOnce.Json.Skip
