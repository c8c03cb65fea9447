/-
Points in time.

The clock counts milliseconds since the epoch; records expire on whole seconds.
-/
import AtMostOnce.Word

namespace AtMostOnce

/-- Milliseconds since the epoch. -/
abbrev Millis := Int

/-- Seconds since the epoch. -/
abbrev Seconds := Int

/-- The second that a point in time belongs to. -/
def secondsOf (now : Millis) : Seconds := now / 1000

/-- The time after so many milliseconds have passed, on a clock that runs around the ends of its
range. -/
def Millis.advance (now : Millis) (by_ : Nat) : Millis := Word.wrap (now + Word.clamp by_)

/-- A natural number of time units as a 64-bit integer, the greatest one standing for all beyond. -/
def lifetime (n : Nat) : Int := Word.clamp n

end AtMostOnce
