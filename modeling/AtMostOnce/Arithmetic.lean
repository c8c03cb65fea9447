/-
Figures: what sums, differences and products of 64-bit integers come to.

A figure need not be an integer of the range.  A computation that checks its figures ends at
the first that is not; one that does not check them goes on with the integer of the range that
is equal modulo `2^64`.  What is written over `Arithmetic` runs either way.
-/
import AtMostOnce.Dialogue
import AtMostOnce.Word

namespace AtMostOnce

/-- The end of a computation whose figure is out of range. -/
structure Overflow where
  figure : Int
  deriving DecidableEq, Repr

/-- Computations with figures. -/
class Arithmetic (M : Type → Type) where
  /-- The integer of the range that a figure comes to. -/
  figure : Int → M Int

export Arithmetic (figure)

/-- Whatever can end with an overflow checks its figures. -/
instance {M : Type → Type} [Monad M] [MonadExceptOf Overflow M] : Arithmetic M where
  figure n := if Word.InRange n then pure n else throw ⟨n⟩

/-- A plain value cannot end with an overflow. -/
instance : Arithmetic Id where
  figure n := pure (Word.wrap n)

/-- Nor can a dialogue, unless that is one of its results. -/
instance {Q : Type} {A : Q → Type} : Arithmetic (Dialogue Q A) where
  figure n := .done (Word.wrap n)

/-- Runs a dialogue that may have an overflow for its result, and ends with that overflow. -/
def Dialogue.answerChecked {Q : Type} {A : Q → Type} {α : Type} {M : Type → Type} [Monad M]
    [MonadExceptOf Overflow M] (answer : (q : Q) → M (A q))
    (d : Dialogue Q A (Except Overflow α)) : M α := do
  match ← d.answerBy answer with
  | .ok a => return a
  | .error overflow => throw overflow

end AtMostOnce
