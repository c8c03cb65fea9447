/-
Regions and where their tables are.

A region belongs to the group that lists its name, or whose regions are named as it is:
by the pieces that the group's names start with, a word and a number, with hyphens
between them.  Any other region belongs to the common group.
-/
import AtMostOnce.Text.Pieces

namespace AtMostOnce.Table.Region

/-- Regions that share a domain of their own. -/
structure Group where
  /-- The names that are listed. -/
  listed : List String
  /-- The pieces that the other names start with. -/
  front : List String
  domain : String
  deriving Repr

/-- The groups besides the common one. -/
def groups : List Group := [
  ⟨["aws-cn-global"], ["cn"], "amazonaws.com.cn"⟩,
  ⟨["aws-us-gov-global"], ["us", "gov"], "amazonaws.com"⟩,
  ⟨[], ["eusc", "de"], "amazonaws.eu"⟩,
  ⟨["aws-iso-global"], ["us", "iso"], "c2s.ic.gov"⟩,
  ⟨["aws-iso-b-global"], ["us", "isob"], "sc2s.sgov.gov"⟩,
  ⟨["aws-iso-e-global"], ["eu", "isoe"], "cloud.adc-e.uk"⟩,
  ⟨["aws-iso-f-global"], ["us", "isof"], "csp.hci.ic.gov"⟩
  ]

/-- The domain of the common group. -/
def commonDomain : String := "amazonaws.com"

/-- Is this a word of letters, digits and underscores? -/
def isWord (cs : List Char) : Bool := !cs.isEmpty && cs.all fun c => c.isAlphanum || c = '_'

/-- Is this a number? -/
def isNumber (cs : List Char) : Bool := !cs.isEmpty && cs.all Char.isDigit

/-- Is a region, by its name, one of a group? -/
def Group.has (g : Group) (region : String) : Bool :=
  g.listed.contains region ||
    match (Text.pieces '-' region.toList).reverse with
    | number :: word :: front =>
      isNumber number && isWord word && front.reverse = g.front.map String.toList
    | _ => false

/-- The group of a region; none is the common one. -/
def group? (region : String) : Option Group := groups.find? fun g => g.has region

/-- The domain of a region. -/
def domain (region : String) : String :=
  match group? region with
  | some g => g.domain
  | none => commonDomain

/-- The region of a table on the machine itself. -/
def onMachine : String := "local"

/-! ### Names of hosts -/

/-- Can this stand between the points of a host's name?  Characters beyond ASCII are for the
reader of addresses to refuse. -/
def isLabel (cs : List Char) : Bool :=
  !cs.isEmpty && (String.ofList cs).utf8ByteSize ≤ 63 && cs.head? ≠ some '-'
    && cs.all fun c => c.isAlphanum || c = '-' || 0x80 ≤ c.toNat

/-- Can this stand in a host's name, points between its labels? -/
def isName (region : String) : Bool := (Text.pieces '.' region.toList).all isLabel

end AtMostOnce.Table.Region
