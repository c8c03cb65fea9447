/-
Cutting text at characters.
-/

namespace AtMostOnce.Text

/-- Splits a text before the first character that `stops` accepts. -/
def splitBefore (stops : Char → Bool) (cs : List Char) : List Char × List Char :=
  (cs.takeWhile fun c => !stops c, cs.dropWhile fun c => !stops c)

/-- Splits a text before and behind the last character of a kind, if there is one. -/
def splitAtLast? (c : Char) (cs : List Char) : Option (List Char × List Char) :=
  match splitBefore (· = c) cs.reverse with
  | (_, []) => none
  | (back, _ :: front) => some (front.reverse, back.reverse)

/-- The pieces of a text between separators. -/
def pieces (sep : Char) : List Char → List (List Char)
  | [] => [[]]
  | c :: cs =>
    if c = sep then [] :: pieces sep cs
    else
      match pieces sep cs with
      | [] => [[c]]
      | p :: ps => (c :: p) :: ps

/-- The text without the characters at its ends that `outer` accepts. -/
def trimBy (outer : Char → Bool) (cs : List Char) : List Char :=
  ((cs.dropWhile outer).reverse.dropWhile outer).reverse

end AtMostOnce.Text
