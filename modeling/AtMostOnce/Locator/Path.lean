/-
Paths.

A path is a list of segments with a slash in front of each.  The segment `.` says to
stay, and `..` to take back the segment in front of it; a point may be written by its
number.  A segment that names a drive, a letter and a colon or a bar, is never taken
back.
-/
import AtMostOnce.Text.Pieces

namespace AtMostOnce.Locator.Path

/-- A segment with its points written as points. -/
def plain : List Char → List Char
  | '%' :: '2' :: e :: rest =>
    if e = 'e' || e = 'E' then '.' :: plain rest else '%' :: '2' :: plain (e :: rest)
  | c :: rest => c :: plain rest
  | [] => []

/-- Does a segment name a drive? -/
def isDrive : List Char → Bool
  | letter :: mark :: rest =>
    letter.isAlpha && (mark = ':' || mark = '|') && (rest.isEmpty || rest.head? = some '\\')
  | _ => false

/-- Takes back the last segment. -/
def back : List (List Char) → List (List Char)
  | [] => []
  | s :: done => if isDrive s then s :: done else done

/-- The segments without those that say where to go, after those in `done`, the latest first. -/
def follow : (done : List (List Char)) → List (List Char) → List (List Char)
  | done, [] => done.reverse
  | done, s :: rest =>
    let stays := plain s = ['.']
    let goesBack := plain s = ['.', '.']
    let done := if stays then done else if goesBack then back done else s :: done
    if rest.isEmpty && (stays || goesBack) then ([] :: done).reverse else follow done rest

/-- A path that starts with a slash, without the segments that say where to go. -/
def resolve (path : List Char) : List Char :=
  (follow [] (Text.pieces '/' (path.drop 1))).flatMap ('/' :: ·)

end AtMostOnce.Locator.Path
