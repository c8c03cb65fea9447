/-
Hosts.

A host in brackets is an address of eight groups of hexadecimal digits with colons
between them.  Two colons, once, stand for the groups that are missing, and four
decimal numbers with points between them may stand for the last two.  A host that
does not start with a bracket is a name: any text without the characters that delimit
one, and perhaps empty.
-/
import AtMostOnce.Text.Decimal
import AtMostOnce.Text.Hex
import AtMostOnce.Text.Pieces

namespace AtMostOnce.Locator.Host

/-- Is this one to four hexadecimal digits? -/
def isGroup (cs : List Char) : Bool :=
  !cs.isEmpty && cs.length ≤ 4 && cs.all fun c => (Text.hexValue? c).isSome

/-- Is this a decimal number below 256 without a zero in front? -/
def isOctet (cs : List Char) : Bool :=
  !cs.isEmpty && cs.length ≤ 3 && cs.all Char.isDigit && Text.natural cs < 256
    && (cs.length = 1 || cs.head? ≠ some '0')

/-- Is this four decimal numbers with points between them? -/
def isDotted (cs : List Char) : Bool :=
  let octets := Text.pieces '.' cs
  octets.length = 4 && octets.all isOctet

/-- Do the pieces between colons complete an address that has `count` groups, a gap among them? -/
def completes : (count : Nat) → (gap : Bool) → List (List Char) → Bool
  | _, _, [] => false
  | count, gap, [last] =>
    if last.isEmpty then gap || count = 8
    else
      count ≤ 7 && isGroup last && (gap || count = 7)
        || count ≤ 6 && isDotted last && (gap || count = 6)
  | count, gap, piece :: next :: rest =>
    count ≤ 7 &&
      if piece.isEmpty then !gap && completes (count + 1) true (next :: rest)
      else
        isGroup piece && !(next.isEmpty && rest.isEmpty)
          && completes (count + 1) gap (next :: rest)

/-- Is this an address as it stands in brackets? -/
def isAddress (cs : List Char) : Bool :=
  match Text.pieces ':' cs with
  | [] :: [] :: next :: rest => completes 1 true (next :: rest)
  | [] :: _ => false
  | groups => completes 0 false groups

/-- Does a character delimit a name? -/
def delimits (c : Char) : Bool :=
  c.toNat = 0 || [' ', '#', '/', ':', '<', '>', '?', '@', '[', '\\', ']', '^', '|'].contains c

/-- Is this a host? -/
def isHost : List Char → Bool
  | '[' :: rest => rest.getLast? = some ']' && isAddress rest.dropLast
  | name => !name.any delimits

end AtMostOnce.Locator.Host
