/-
Addresses of a server of fields.

    redis://[user[:password]@]host[:socket][/database][?query]
    unix:path[?query]

The first kind asks a host, the second a file; `redis+unix` is another name for
`unix`, and a file may have `localhost` for its host.  The database is an integer, which for a
file the query names as `db`.  The query may name a version of the protocol.
-/
import AtMostOnce.Error
import AtMostOnce.Locator
import AtMostOnce.Word

namespace AtMostOnce.FieldStore.Address

/-- Does a locator name no version of the protocol, or one that there is? -/
def protocolFits (l : Locator) : Bool :=
  match l.value? "protocol" with
  | none => true
  | some version => ["2", "resp2", "3", "resp3"].contains version

/-- Is this the number of a database? -/
def isDatabase (cs : List Char) : Bool := (Word.ofSignedDigits? cs).isSome

/-- Does a locator lead to a host? -/
def isRemote (l : Locator) : Bool :=
  match l.authority with
  | none => false
  | some a =>
    let database := Text.trimBy (· = '/') l.path
    !a.host.isEmpty && (Text.Percent.text? a.user).isSome && protocolFits l
      && (database.isEmpty || isDatabase database)

/-- Does a locator lead to a file? -/
def isLocal (l : Locator) : Bool :=
  let here := match l.authority with
    | none => true
    | some a => a.host.isEmpty || a.host = "localhost".toList
  here && l.path.head? = some '/' && protocolFits l &&
    match l.value? "db" with
    | none => true
    | some database => isDatabase database.toList

/-- Is this an address? -/
def isValid (address : String) : Bool :=
  match Locator.parse? address with
  | none => false
  | some l =>
    if l.scheme = "redis" then isRemote l
    else if l.scheme = "unix" || l.scheme = "redis+unix" then isLocal l
    else false

/-- Refuses what is no address. -/
def check (address : String) : Except Error Unit :=
  if isValid address then .ok ()
  else .error (.configuration "invalid Redis URL: Redis URL did not parse")

end AtMostOnce.FieldStore.Address
