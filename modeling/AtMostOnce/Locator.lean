/-
Locators: where something is.

    scheme://user@host:socket/path?query#fragment

The part from the two slashes up to the path is the authority, and it may be missing.
With an authority, or if it starts with a slash, a path is a list of segments; otherwise
it is any text.  The fragment is left out, and the number of the socket is only checked.
-/
import AtMostOnce.Locator.Host
import AtMostOnce.Locator.Path
import AtMostOnce.Text.Blank
import AtMostOnce.Text.Percent

namespace AtMostOnce

/-- Who asks, and which host. -/
structure Locator.Authority where
  user : List Char
  host : List Char
  deriving Repr

/-- The parts of a locator. -/
structure Locator where
  /-- In lower case. -/
  scheme : String
  authority : Option Locator.Authority
  path : List Char
  /-- What follows the question mark. -/
  query : List Char
  deriving Repr

namespace Locator

open Text (splitBefore)

/-- The text without controls and spaces at its ends and without tabs and line ends. -/
def strip (cs : List Char) : List Char :=
  (Text.trimBy (fun c => c.toNat ≤ 0x20) cs).filter fun c => c ≠ '\t' && c ≠ '\n' && c ≠ '\r'

/-! ### Authorities -/

/-- Splits an authority before the first colon that is not in brackets. -/
def splitHost : (inside : Bool) → List Char → List Char × List Char
  | _, [] => ([], [])
  | inside, c :: cs =>
    if c = ':' && !inside then ([], c :: cs)
    else
      let (host, rest) := splitHost (c = '[' || inside && c ≠ ']') cs
      (c :: host, rest)

/-- What follows the number of a socket, which may be missing; a backslash ends it too. -/
def behindSocket? : List Char → Option (List Char)
  | ':' :: cs =>
    let (digits, rest) := splitBefore (fun c => !c.isDigit) cs
    if Text.natural digits ≤ 65535 && (rest.isEmpty || rest.head? = some '\\') then some rest
    else none
  | cs => some cs

/-- Does a character end an authority? -/
def endsAuthority (c : Char) : Bool := c = '/' || c = '?' || c = '#'

/-- Takes an authority off a text.  Without a host there is neither a user nor a socket. -/
def Authority.read? (cs : List Char) : Option (Authority × List Char) :=
  let (front, rest) := splitBefore endsAuthority cs
  let (marked, user, place) :=
    match Text.splitAtLast? '@' front with
    | some (user, place) => (true, user, place)
    | none => (false, [], front)
  let (host, socket) := splitHost false place
  if marked && user.isEmpty && place.isEmpty && !rest.isEmpty then none
  else if host.isEmpty && !(socket.isEmpty && (user.isEmpty || user = [':'])) then none
  else if Host.isHost host then (behindSocket? socket).map fun left => (⟨user, host⟩, left ++ rest)
  else none

/-! ### Whole locators -/

/-- Takes a scheme and its colon off a text. -/
def scheme? (cs : List Char) : Option (String × List Char) :=
  let (scheme, rest) := splitBefore (· = ':') cs
  let fits (c : Char) : Bool := c.isAlphanum || c = '+' || c = '-' || c = '.'
  match scheme, rest with
  | c :: _, ':' :: rest =>
    if c.isAlpha && scheme.all fits then some (Text.lowercase (String.ofList scheme), rest)
    else none
  | _, _ => none

/-- The path and the query at the start of a text. -/
def pathAndQuery (cs : List Char) : List Char × List Char :=
  let (cs, _) := splitBefore (· = '#') cs
  let (path, query) := splitBefore (· = '?') cs
  (path, query.drop 1)

/-- The locator that a text is. -/
def parse? (text : String) : Option Locator :=
  match scheme? (strip text.toList) with
  | none => none
  | some (scheme, '/' :: '/' :: rest) =>
    (Authority.read? rest).map fun (authority, rest) =>
      let (path, query) := pathAndQuery rest
      let path := match path with
        | [] => []
        | '/' :: _ => Path.resolve path
        | _ => Path.resolve ('/' :: path)
      ⟨scheme, some authority, path, query⟩
  | some (scheme, rest) =>
    let (path, query) := pathAndQuery rest
    some ⟨scheme, none, if path.head? = some '/' then Path.resolve path else path, query⟩

/-! ### Queries -/

/-- A name or a value of a query, in which a plus stands for a space.  Bytes that are no text read
as a replacement character. -/
def queryText (cs : List Char) : String :=
  (Text.Percent.text? (cs.map fun c => if c = '+' then ' ' else c)).getD "\ufffd"

/-- The last value that the query gives a name. -/
def value? (l : Locator) (name : String) : Option String :=
  let values := (Text.pieces '&' l.query).filterMap fun p =>
    let (n, v) := splitBefore (· = '=') p
    if queryText n = name then some (queryText (v.drop 1)) else none
  values.getLast?

end Locator

end AtMostOnce
