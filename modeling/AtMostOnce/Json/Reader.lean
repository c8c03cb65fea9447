/-
Reading JSON text.

`value depth` takes one value off the front of a text in which at most `depth`
further arrays and objects may open.  It is structural in the depth: the readers
for lists and members take the reader for what they hold as an argument, so no
recursion goes through them.  Their loops take one step per character at most and
carry that bound as fuel.

A number whose digits fit 64 bits and that has neither fraction nor exponent is an
integer.  Any other is a double computed in two roundings: the leading digits as a
64-bit significand, then one multiplication or division by a power of ten.
-/
import AtMostOnce.Json.Fault
import AtMostOnce.Text.Hex

namespace AtMostOnce.Json

/-! ### Blanks -/

/-- The four blanks of JSON. -/
def isBlank (c : Char) : Bool := c = ' ' || c = '\n' || c = '\t' || c = '\r'

/-- The text after its leading blanks. -/
def skipBlanks (cs : List Char) : List Char := cs.dropWhile isBlank

/-- Takes the rest of a keyword, character by character. -/
def keyword (α : Type) (a : α) : List Char → Reader α
  | [], cs => .ok (a, cs)
  | _ :: _, [] => .error (.before .endOfValue [])
  | w :: ws, c :: cs =>
    if c = w then keyword α a ws cs else .error (.at_ .expectedIdent (c :: cs))

/-! ### Numbers -/

/-- The value of a decimal digit. -/
def digitValue (c : Char) : Nat := c.toNat - '0'.toNat

/-- The largest significand. -/
def maxSignificand : Nat := 18446744073709551615

/-- Takes digits as long as the significand stays within 64 bits. -/
def significand (sig : Nat) : List Char → Nat × List Char
  | [] => (sig, [])
  | c :: cs =>
    if c.isDigit && decide (sig * 10 + digitValue c ≤ maxSignificand) then
      significand (sig * 10 + digitValue c) cs
    else (sig, c :: cs)

/-- Does the text start with a digit? -/
def startsWithDigit : List Char → Bool
  | c :: _ => c.isDigit
  | [] => false

/-- Divides by `10^308` until the exponent is within reach of one division. -/
def descend : Nat → Nat → Int → Nat × Int
  | 0, f, e => (f, e)
  | fuel + 1, f, e =>
    if f = 0 ∨ -308 ≤ e then (f, e)
    else descend fuel (Binary64.div f (Binary64.tenPow 308)) (e + 308)

/-- The magnitude `sig · 10^e`, or nothing when it is too large for a double. -/
def scaleByTen (sig : Nat) (e : Int) : Option Nat :=
  let f := Binary64.nearest sig 1
  if 0 ≤ e then
    if e ≤ 308 then
      let product := Binary64.mul f (Binary64.tenPow e.toNat)
      if Binary64.infinity ≤ product then none else some product
    else if f = 0 then some 0 else none
  else
    -- A 64-bit significand is zero after three such divisions.
    let (f, e) := descend 3 f e
    if f = 0 then some 0 else some (Binary64.div f (Binary64.tenPow (-e).toNat))

/-- A double of the given sign. -/
def signed (positive : Bool) (bits : Nat) : Number :=
  .double (if positive then bits else bits + Binary64.signBit)

/-- Ends a fractional number whose significand and exponent are known. -/
def scaledNumber (positive : Bool) (sig : Nat) (e : Int) : Reader Number := fun cs =>
  match scaleByTen sig e with
  | some bits => .ok (signed positive bits, cs)
  | none => .error (.before .numberOutOfRange cs)

/-- The largest exponent that is told apart from one too large. -/
def maxExponent : Nat := 2147483647

/-- The digits of an exponent after the first one. -/
def exponentDigits (positive : Bool) (sig : Nat) (start : Int) (up : Bool) (exp : Nat) :
    Reader Number
  | [] => scaledNumber positive sig (if up then start + exp else start - exp) []
  | c :: cs =>
    if c.isDigit then
      if exp * 10 + digitValue c ≤ maxExponent then
        exponentDigits positive sig start up (exp * 10 + digitValue c) cs
      else if sig ≠ 0 ∧ up then .error (.before .numberOutOfRange cs)
      else .ok (signed positive 0, cs.dropWhile Char.isDigit)
    else scaledNumber positive sig (if up then start + exp else start - exp) (c :: cs)

/-- An exponent, after its letter. -/
def exponent (positive : Bool) (sig : Nat) (start : Int) : Reader Number := fun cs =>
  let (up, cs) := match cs with
    | '+' :: rest => (true, rest)
    | '-' :: rest => (false, rest)
    | rest => (true, rest)
  match cs with
  | [] => .error (.before .endOfValue [])
  | c :: rest =>
    if c.isDigit then exponentDigits positive sig start up (digitValue c) rest
    else .error (.at_ .invalidNumber (c :: rest))

/-- The end of a number after its digits: an exponent, or nothing. -/
def afterDigits (positive : Bool) (sig : Nat) (e : Int) : Reader Number
  | 'e' :: rest => exponent positive sig e rest
  | 'E' :: rest => exponent positive sig e rest
  | rest => scaledNumber positive sig e rest

/-- A fraction, after its point.  Digits that no longer fit the significand are dropped. -/
def fraction (positive : Bool) (sig : Nat) (e : Int) : Reader Number := fun cs =>
  let (sig', rest) := significand sig cs
  let taken := cs.length - rest.length
  if startsWithDigit rest then
    afterDigits positive sig' (e - taken) (rest.dropWhile Char.isDigit)
  else if taken = 0 then
    match rest with
    | [] => .error (.at_ .endOfValue [])
    | _ :: _ => .error (.at_ .invalidNumber rest)
  else afterDigits positive sig' (e - taken) rest

/-- An integer, when neither a fraction nor an exponent follows. -/
def wholeNumber (positive : Bool) (sig : Nat) : Number :=
  if positive then .integer sig
  else if 1 ≤ sig ∧ sig ≤ 9223372036854775808 then .integer (-sig)
  else signed false (Binary64.nearest sig 1)

/-- What follows the digits of the integer part. -/
def afterInteger (positive : Bool) (sig : Nat) : Reader Number
  | '.' :: rest => fraction positive sig 0 rest
  | 'e' :: rest => exponent positive sig 0 rest
  | 'E' :: rest => exponent positive sig 0 rest
  | rest => .ok (wholeNumber positive sig, rest)

/-- The integer part of a number too long for the significand: each digit left out raises the
exponent by one. -/
def longInteger (positive : Bool) (sig : Nat) : Reader Number := fun cs =>
  let rest := cs.dropWhile Char.isDigit
  let dropped : Int := (cs.length - rest.length : Nat)
  match rest with
  | '.' :: rest => fraction positive sig dropped rest
  | rest => afterDigits positive sig dropped rest

/-- A number, after its sign. -/
def number (positive : Bool) : Reader Number
  | [] => .error (.before .endOfValue [])
  | c :: cs =>
    if c = '0' then
      if startsWithDigit cs then .error (.at_ .invalidNumber cs) else afterInteger positive 0 cs
    else if c.isDigit then
      let (sig, rest) := significand (digitValue c) cs
      if startsWithDigit rest then longInteger positive sig rest
      else afterInteger positive sig rest
    else .error (.at_ .invalidNumber (c :: cs))

/-! ### Strings -/

/-- The value of four hexadecimal digits. -/
def hexQuad? (a b c d : Char) : Option Nat := do
  let a ← Text.hexValue? a
  let b ← Text.hexValue? b
  let c ← Text.hexValue? c
  let d ← Text.hexValue? d
  return ((a * 16 + b) * 16 + c) * 16 + d

/-- What is wrong with a text that should start with four hexadecimal digits and does not. -/
def hexFault (cs : List Char) : Fault :=
  if byteLength cs < 4 then .before .endOfString [] else ⟨.invalidEscape, cs, 4⟩

/-- The character of a one-letter escape. -/
def shortEscape? (c : Char) : Option Char :=
  if c = '"' then some '"'
  else if c = '\\' then some '\\'
  else if c = '/' then some '/'
  else if c = 'b' then some '\x08'
  else if c = 'f' then some '\x0c'
  else if c = 'n' then some '\n'
  else if c = 'r' then some '\r'
  else if c = 't' then some '\t'
  else none

/-- The first half of a surrogate pair. -/
def isHighSurrogate (n : Nat) : Bool := 0xD800 ≤ n && n ≤ 0xDBFF

/-- The second half of a surrogate pair. -/
def isLowSurrogate (n : Nat) : Bool := 0xDC00 ≤ n && n ≤ 0xDFFF

/-- The character of a surrogate pair. -/
def joinSurrogates (high low : Nat) : Char :=
  Char.ofNat ((high - 0xD800) * 0x400 + (low - 0xDC00) + 0x10000)

/-- Puts a character in front of a string that was read. -/
def consChar (c : Char) (r : Except Fault (List Char × List Char)) :
    Except Fault (List Char × List Char) :=
  match r with
  | .ok (s, rest) => .ok (c :: s, rest)
  | .error f => .error f

/-- The inside of a string literal, up to and with its closing quote. -/
def stringBody : List Char → Except Fault (List Char × List Char)
  | [] => .error (.before .endOfString [])
  | c :: cs =>
    if c = '"' then .ok ([], cs)
    else if c = '\\' then
      match cs with
      | [] => .error (.before .endOfString [])
      | e :: cs =>
        if e = 'u' then
          match cs with
          | h₁ :: h₂ :: h₃ :: h₄ :: cs' =>
            match hexQuad? h₁ h₂ h₃ h₄ with
            | none => .error (hexFault cs)
            | some n =>
              if isLowSurrogate n then .error (.before .loneSurrogate cs')
              else if isHighSurrogate n then
                match cs' with
                | [] => .error (.before .endOfString [])
                | b :: cs' =>
                  if b = '\\' then
                    match cs' with
                    | [] => .error (.before .endOfString [])
                    | u :: cs' =>
                      if u = 'u' then
                        match cs' with
                        | l₁ :: l₂ :: l₃ :: l₄ :: cs'' =>
                          match hexQuad? l₁ l₂ l₃ l₄ with
                          | none => .error (hexFault cs')
                          | some m =>
                            if isLowSurrogate m then
                              consChar (joinSurrogates n m) (stringBody cs'')
                            else .error (.before .loneSurrogate cs'')
                        | cs' => .error (hexFault cs')
                      else .error (.at_ .unfinishedSurrogate (u :: cs'))
                  else .error (.at_ .unfinishedSurrogate (b :: cs'))
              else consChar (Char.ofNat n) (stringBody cs')
          | cs => .error (hexFault cs)
        else
          match shortEscape? e with
          | some c => consChar c (stringBody cs)
          | none => .error (.at_ .invalidEscape (e :: cs))
    else if c.toNat < 0x20 then .error (.at_ .controlCharacter (c :: cs))
    else consChar c (stringBody cs)

/-- A string literal, after its opening quote. -/
def stringLiteral : Reader String := fun cs =>
  match stringBody cs with
  | .ok (s, rest) => .ok (String.ofList s, rest)
  | .error f => .error f

/-! ### Lists -/

/-- Does another item of a list follow?  Leaves the text at the item or at the bracket. -/
def nextItem (first : Bool) : Reader Bool := fun cs =>
  match skipBlanks cs with
  | [] => .error (.at_ .endOfList [])
  | c :: rest =>
    if c = ']' then .ok (false, c :: rest)
    else if first then .ok (true, c :: rest)
    else if c = ',' then
      match skipBlanks rest with
      | [] => .error (.at_ .endOfValue [])
      | d :: rest =>
        if d = ']' then .error (.at_ .trailingComma (d :: rest)) else .ok (true, d :: rest)
    else .error (.at_ .expectedListCommaOrEnd (c :: rest))

/-- The items of a list, after its opening bracket; stops before the closing one. -/
def listItems {α : Type} (item : Reader α) : (fuel : Nat) → (first : Bool) → Reader (List α)
  | 0, _, cs => .error (.at_ .endOfList cs)
  | fuel + 1, first, cs =>
    match nextItem first cs with
    | .error f => .error f
    | .ok (false, rest) => .ok ([], rest)
    | .ok (true, rest) =>
      match item rest with
      | .error f => .error f
      | .ok (a, rest) =>
        match listItems item fuel false rest with
        | .error f => .error f
        | .ok (as, rest) => .ok (a :: as, rest)

/-- The end of a list. -/
def endList : Reader Unit := fun cs =>
  match skipBlanks cs with
  | [] => .error (.at_ .endOfList [])
  | c :: rest =>
    if c = ']' then .ok ((), rest)
    else if c = ',' then
      match skipBlanks rest with
      | ']' :: rest => .error (.at_ .trailingComma (']' :: rest))
      | rest => .error (.at_ .trailingCharacters rest)
    else .error (.at_ .trailingCharacters (c :: rest))

/-! ### Objects -/

/-- Does another member of an object follow?  Takes the opening quote of its key. -/
def nextMember (first : Bool) : Reader Bool := fun cs =>
  match skipBlanks cs with
  | [] => .error (.at_ .endOfObject [])
  | c :: rest =>
    if c = '\x7d' then .ok (false, c :: rest)
    else if first then
      if c = '"' then .ok (true, rest) else .error (.at_ .keyNotString (c :: rest))
    else if c = ',' then
      match skipBlanks rest with
      | [] => .error (.at_ .endOfValue [])
      | d :: rest =>
        if d = '"' then .ok (true, rest)
        else if d = '\x7d' then .error (.at_ .trailingComma (d :: rest))
        else .error (.at_ .keyNotString (d :: rest))
    else .error (.at_ .expectedObjectCommaOrEnd (c :: rest))

/-- The colon between a key and its value. -/
def colon : Reader Unit := fun cs =>
  match skipBlanks cs with
  | [] => .error (.at_ .endOfObject [])
  | c :: rest => if c = ':' then .ok ((), rest) else .error (.at_ .expectedColon (c :: rest))

/-- The members of an object, after its opening brace; stops before the closing one. -/
def objectMembers (item : Reader Value) : (fuel : Nat) → (first : Bool) → Reader Members
  | 0, _, cs => .error (.at_ .endOfObject cs)
  | fuel + 1, first, cs =>
    match nextMember first cs with
    | .error f => .error f
    | .ok (false, rest) => .ok ([], rest)
    | .ok (true, rest) =>
      match stringLiteral rest with
      | .error f => .error f
      | .ok (key, rest) =>
        match colon rest with
        | .error f => .error f
        | .ok ((), rest) =>
          match item rest with
          | .error f => .error f
          | .ok (v, rest) =>
            match objectMembers item fuel false rest with
            | .error f => .error f
            | .ok (ms, rest) => .ok ((key, v) :: ms, rest)

/-- The end of an object. -/
def endObject : Reader Unit := fun cs =>
  match skipBlanks cs with
  | [] => .error (.at_ .endOfObject [])
  | c :: rest =>
    if c = '\x7d' then .ok ((), rest)
    else if c = ',' then .error (.at_ .trailingComma (c :: rest))
    else .error (.at_ .trailingCharacters (c :: rest))

/-! ### Values -/

/-- An array, after its opening bracket, whose items are read by `item`. -/
def arrayOf (item : Reader Value) : Reader Value := fun cs =>
  match listItems item (cs.length + 1) true cs with
  | .error f => .error f
  | .ok (items, rest) =>
    match endList rest with
    | .error f => .error f
    | .ok ((), rest) => .ok (.array items, rest)

/-- An object, after its opening brace, whose values are read by `item`. -/
def objectOf (item : Reader Value) : Reader Value := fun cs =>
  match objectMembers item (cs.length + 1) true cs with
  | .error f => .error f
  | .ok (ms, rest) =>
    match endObject rest with
    | .error f => .error f
    | .ok ((), rest) => .ok (.object (Members.ofList ms), rest)

/-- Changes what a reader returns. -/
def mapReader {α β : Type} (f : α → β) (r : Reader α) : Reader β := fun cs =>
  match r cs with
  | .ok (a, rest) => .ok (f a, rest)
  | .error e => .error e

/-- A value whose items are read by `inner`; without it no array and no object may open. -/
def valueWith (inner : Option (Reader Value)) : Reader Value := fun cs =>
  match skipBlanks cs with
  | [] => .error (.at_ .endOfValue [])
  | c :: rest =>
    if c = 'n' then keyword Value .null ['u', 'l', 'l'] rest
    else if c = 't' then keyword Value (.bool true) ['r', 'u', 'e'] rest
    else if c = 'f' then keyword Value (.bool false) ['a', 'l', 's', 'e'] rest
    else if c = '-' then mapReader .number (number false) rest
    else if c.isDigit then mapReader .number (number true) (c :: rest)
    else if c = '"' then mapReader .string stringLiteral rest
    else if c = '[' then
      match inner with
      | some item => arrayOf item rest
      | none => .error (.at_ .tooDeep (c :: rest))
    else if c = '\x7b' then
      match inner with
      | some item => objectOf item rest
      | none => .error (.at_ .tooDeep (c :: rest))
    else .error (.at_ .expectedValue (c :: rest))

/-- A value that nests at most `depth` arrays and objects. -/
def value : (depth : Nat) → Reader Value
  | 0 => valueWith none
  | depth + 1 => valueWith (some (value depth))

/-- How deep a text may nest. -/
def maxDepth : Nat := 127

/-- Reads a whole text: a value and nothing but blanks after it. -/
def whole {α : Type} (r : Reader α) (cs : List Char) : Except Fault α :=
  match r cs with
  | .error f => .error f
  | .ok (a, rest) =>
    match skipBlanks rest with
    | [] => .ok a
    | rest => .error (.at_ .trailingCharacters rest)

/-- The value that a text stands for. -/
def parse (source : String) : Except Fault Value := whole (value maxDepth) source.toList

end AtMostOnce.Json
