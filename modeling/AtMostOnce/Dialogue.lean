/-
Computations that ask questions.

A dialogue is done, or it asks a question and goes on with the answer.  Whoever
answers decides what a question means and what else happens before its answer, so
one dialogue can be run alone, run among others, or carried out by questions of
another kind.
-/

namespace AtMostOnce

/-- A computation that asks questions `Q`, each with its own type of answers, before it returns. -/
inductive Dialogue (Q : Type) (A : Q → Type) (α : Type) where
  | done (result : α)
  | ask (question : Q) (next : A question → Dialogue Q A α)

namespace Dialogue

variable {Q : Type} {A : Q → Type} {α β : Type}

/-- One dialogue after the other. -/
def bind : Dialogue Q A α → (α → Dialogue Q A β) → Dialogue Q A β
  | done a, f => f a
  | ask q next, f => ask q fun a => bind (next a) f

instance : Monad (Dialogue Q A) where
  pure := done
  bind := bind

/-- Asks one question and returns its answer. -/
def query (q : Q) : Dialogue Q A (A q) := ask q done

/-- Runs a dialogue with every question answered by `answer`. -/
def answerBy {m : Type → Type} [Monad m] (answer : (q : Q) → m (A q)) : Dialogue Q A α → m α
  | done a => pure a
  | ask q next => do answerBy answer (next (← answer q))

/-! ### Laws -/

@[simp] theorem pure_eq_done (a : α) : (pure a : Dialogue Q A α) = done a := rfl

@[simp] theorem done_bind (a : α) (f : α → Dialogue Q A β) :
    (done a : Dialogue Q A α) >>= f = f a := rfl

@[simp] theorem ask_bind (q : Q) (next : A q → Dialogue Q A α) (f : α → Dialogue Q A β) :
    ask q next >>= f = ask q fun a => next a >>= f := rfl

@[simp] theorem query_bind (q : Q) (f : A q → Dialogue Q A β) : query q >>= f = ask q f := rfl

theorem bind_bind {γ : Type} (d : Dialogue Q A α) (f : α → Dialogue Q A β)
    (g : β → Dialogue Q A γ) : d >>= f >>= g = d >>= fun a => f a >>= g := by
  induction d with
  | done a => rfl
  | ask q next ih => simp only [ask_bind]; exact congrArg (ask q) (funext ih)

end Dialogue

end AtMostOnce
