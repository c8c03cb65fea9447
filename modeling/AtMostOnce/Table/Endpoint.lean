/-
Where requests to a table go.

A table has a region, and may be given an endpoint, which takes the place of the
region's.  A table of the common group that is named in full, with its region and its
account,

    arn:group:dynamodb:region:account:resource

is asked at an address of its account.  Without a region that can stand in a host's
name, or without a table's name, no request can be made; to an endpoint that is no
address none can be sent.
-/
import AtMostOnce.Table.Region
import AtMostOnce.Text.Blank

namespace AtMostOnce.Table.Endpoint

open Text (splitBefore pieces)

/-! ### Addresses -/

/-- What is seen of an authority so far. -/
structure Seen where
  colons : Nat
  opened : Bool
  closed : Bool
  percent : Bool

/-- May a character stand in an authority? -/
def inAuthority (c : Char) : Bool := c.isAlphanum || "!$&'()*+,-.:;=@[]_~".toList.contains c

/-- Looks at one more character.  A bracket that closes and an `@` let go of what is in front. -/
def Seen.step? (s : Seen) (c : Char) : Option Seen :=
  if c = ':' then if s.colons < 8 then some { s with colons := s.colons + 1 } else none
  else if c = '[' then if s.percent || s.opened then none else some { s with opened := true }
  else if c = ']' then
    if s.opened && !s.closed then some ⟨0, true, true, false⟩ else none
  else if c = '@' then some { s with colons := 0, percent := false }
  else if c = '%' then some { s with percent := true }
  else if inAuthority c then some s
  else none

/-- Is this an authority? -/
def isAuthority (cs : List Char) : Bool :=
  match cs.foldlM Seen.step? (⟨0, false, false, false⟩ : Seen) with
  | none => false
  | some s =>
    !cs.isEmpty && s.opened = s.closed && s.colons ≤ 1 && !s.percent && cs.getLast? ≠ some '@'

/-- May a character stand in a path? -/
def inPath (c : Char) : Bool := '!' ≤ c && c ≤ '~' && !"#<>?\x60".toList.contains c

/-- May a character stand in a query? -/
def inQuery (c : Char) : Bool := '!' ≤ c && c ≤ '~' && !"\"#<>".toList.contains c

/-- Takes a scheme and two slashes off an address.  Of the schemes `http` and `https` case does
not matter. -/
def scheme? (cs : List Char) : Option (String × List Char) :=
  let (scheme, rest) := splitBefore (· = ':') cs
  let small := Text.lowercase (String.ofList scheme)
  let fits (c : Char) : Bool := c.isAlphanum || c = '+' || c = '-' || c = '.'
  match rest with
  | ':' :: '/' :: '/' :: rest =>
    if small = "http" || small = "https" then some (small, rest)
    else if scheme.length ≤ 64 && scheme.all fits then some (String.ofList scheme, rest)
    else none
  | _ => none

/-- The path at the start of a text, which may have a query and a fragment too. -/
def path? (cs : List Char) : Option (List Char) :=
  let (cs, _) := splitBefore (· = '#') cs
  let (path, query) := splitBefore (· = '?') cs
  if path.all inPath && (query.drop 1).all inQuery then some path else none

/-- The bytes that an address may have. -/
def longest : Nat := 65534

/-- An address without query and fragment, and with a slash at the end. -/
def address? (endpoint : String) : Option String :=
  match scheme? endpoint.toList with
  | none => none
  | some (scheme, rest) =>
    let (authority, rest) := splitBefore (fun c => c = '/' || c = '?' || c = '#') rest
    match path? rest with
    | none => none
    | some path =>
      let path := if path.getLast? = some '/' then path.dropLast else path
      if isAuthority authority && endpoint.utf8ByteSize ≤ longest then
        some (scheme ++ "://" ++ String.ofList authority ++ String.ofList path ++ "/")
      else none

/-! ### Destinations -/

/-- The account in the full name of a table of a region. -/
def account? (region table : String) : Option String :=
  match pieces ':' table.toList with
  | arn :: group :: service :: place :: account :: resource =>
    if arn = "arn".toList && !group.isEmpty && service = "dynamodb".toList
        && place = region.toList && Region.isLabel place && Region.isLabel account
        && resource ≠ [] && resource ≠ [[]] then
      some (String.ofList account)
    else none
  | _ => none

/-- The endpoint of a table of a region. -/
def ofRegion (region table : String) : String :=
  if region = Region.onMachine then "http://localhost:8000"
  else
    let host := match Region.group? region, account? region table with
      | none, some account => account ++ ".ddb."
      | _, _ => "dynamodb."
    "https://" ++ host ++ region ++ "." ++ Region.domain region

/-- Can a request to a table of a region be made? -/
def canAsk (region table : String) : Bool :=
  Region.isName region && !(Text.trim table.toList).isEmpty

end AtMostOnce.Table.Endpoint
