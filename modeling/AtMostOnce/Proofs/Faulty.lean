/-
What fails on demand.

A ledger that fails on demand is used in two ways: an error is left in the queue of a kind,
or a request is made.  The queues are told apart here from the ledger that holds them: `queued`
is what each use does to them, and `passed` are the requests that met an empty one.  One use
keeps the ledger in step with that account (`Agrees.on`), so after any uses the records are
those of a plain ledger that got the passed requests only (`agrees_after`), and the next
request fails with what is in front of its queue or is answered as the plain ledger would
answer it.
-/
import AtMostOnce.Ledger.Faulty

namespace AtMostOnce.Ledger

/-- The records after some requests, each at its point in time. -/
def Memory.serve (m : Memory) (asked : List (Millis × Request)) : Memory :=
  asked.foldl (fun m a => (m.answer a.1 a.2).2) m

theorem Memory.serve_append (m : Memory) (asked more : List (Millis × Request)) :
    m.serve (asked ++ more) = (m.serve asked).serve more := List.foldl_append

namespace Faulty

/-- What is done with a ledger that fails on demand. -/
inductive Use where
  | push (kind : Kind) (e : Error)
  | ask (now : Millis) (q : Request)

/-- The errors that wait, by kind, the oldest first. -/
abbrev Queues := Kind → List Error

namespace Use

/-- The ledger after a use. -/
def on (l : Faulty) : Use → Faulty
  | push kind e => l.push kind e
  | ask now q => (l.answer now q).2

/-- The queues after a use: an error goes to the end of the queue of its kind, and a request takes
what is in front of that of its own. -/
def queued (waiting : Queues) : Use → Queues
  | push kind e => fun k => if k = kind then waiting k ++ [e] else waiting k
  | ask _ q => fun k => if k = q.kind then (waiting k).tail else waiting k

/-- The request, if its queue is empty. -/
def passed (waiting : Queues) : Use → List (Millis × Request)
  | push _ _ => []
  | ask now q => if waiting q.kind = [] then [(now, q)] else []

/-- The request. -/
def asked : Use → List Request
  | push _ _ => []
  | ask _ q => [q]

/-- The error that is left in the queue of a kind. -/
def pushed (kind : Kind) : Use → List Error
  | push k e => if k = kind then [e] else []
  | ask _ _ => []

/-- The error that a request of the kind meets. -/
def met (kind : Kind) (waiting : Queues) : Use → List Error
  | push _ _ => []
  | ask _ q => if q.kind = kind then (waiting kind).take 1 else []

end Use

/-- The ledger after some uses. -/
def after (l : Faulty) (uses : List Use) : Faulty := uses.foldl Use.on l

/-- The queues after some uses. -/
def queuedBy (waiting : Queues) (uses : List Use) : Queues := uses.foldl Use.queued waiting

/-- The requests that meet an empty queue, each at its point in time. -/
def passedOf (waiting : Queues) : List Use → List (Millis × Request)
  | [] => []
  | u :: rest => u.passed waiting ++ passedOf (u.queued waiting) rest

/-- The errors that the requests of a kind meet. -/
def metOf (kind : Kind) (waiting : Queues) : List Use → List Error
  | [] => []
  | u :: rest => u.met kind waiting ++ metOf kind (u.queued waiting) rest

/-! ### Queues -/

/-- What the requests of a kind have met, and then what still waits for them, is what waited at
first and then what was pushed. -/
theorem met_append_queuedBy (kind : Kind) (waiting : Queues) (uses : List Use) :
    metOf kind waiting uses ++ queuedBy waiting uses kind =
      waiting kind ++ uses.flatMap (Use.pushed kind) := by
  induction uses generalizing waiting with
  | nil => simp [metOf, queuedBy]
  | cons u rest ih =>
    have step : u.met kind waiting ++ u.queued waiting kind = waiting kind ++ u.pushed kind := by
      cases u with
      | push k e =>
        by_cases h : k = kind
        · subst h
          simp [Use.met, Use.queued, Use.pushed]
        · simp [Use.met, Use.queued, Use.pushed, h, Ne.symm h]
      | ask now q =>
        by_cases h : q.kind = kind
        · subst h
          cases hw : waiting q.kind <;> simp [Use.met, Use.queued, Use.pushed, hw]
        · simp [Use.met, Use.queued, Use.pushed, h, Ne.symm h]
    calc metOf kind waiting (u :: rest) ++ queuedBy waiting (u :: rest) kind
        = u.met kind waiting ++
            (metOf kind (u.queued waiting) rest ++ queuedBy (u.queued waiting) rest kind) :=
          List.append_assoc _ _ _
      _ = u.met kind waiting ++ u.queued waiting kind ++ rest.flatMap (Use.pushed kind) := by
          rw [ih, List.append_assoc]
      _ = waiting kind ++ (u :: rest).flatMap (Use.pushed kind) := by
          rw [step, List.append_assoc, List.flatMap_cons]

/-! ### One use -/

/-- The ledger has these queues, these records and these requests. -/
structure Agrees (l : Faulty) (waiting : Queues) (records : Memory) (requests : List Request) :
    Prop where
  faults : l.faults = waiting
  records : l.records = records
  requests : l.requests = requests

variable {l : Faulty} {waiting : Queues} {m : Memory} {requests : List Request}

/-- **One use keeps the account.** -/
theorem Agrees.on (h : l.Agrees waiting m requests) (u : Use) :
    (u.on l).Agrees (u.queued waiting) (m.serve (u.passed waiting)) (requests ++ u.asked) := by
  obtain ⟨rfl, rfl, rfl⟩ := h
  cases u with
  | push kind e =>
    refine ⟨funext fun k => ?_, rfl, (List.append_nil _).symm⟩
    by_cases hk : k = kind
    · subst hk
      simp [Use.on, Use.queued, push]
    · simp [Use.on, Use.queued, push, hk]
  | ask now q =>
    cases hq : l.faults q.kind with
    | nil =>
      refine ⟨funext fun k => ?_, ?_, ?_⟩
      · by_cases hk : k = q.kind
        · subst hk
          simp [Use.on, Use.queued, answer, hq]
        · simp [Use.on, Use.queued, answer, hq, hk]
      · simp [Use.on, Use.passed, answer, hq, Memory.serve]
      · simp [Use.on, Use.asked, answer, hq]
    | cons e es =>
      refine ⟨funext fun k => ?_, ?_, ?_⟩
      · by_cases hk : k = q.kind
        · subst hk
          simp [Use.on, Use.queued, answer, pop, hq]
        · simp [Use.on, Use.queued, answer, pop, hq, hk]
      · simp [Use.on, Use.passed, answer, hq, Memory.serve]
      · simp [Use.on, Use.asked, answer, hq]

/-- After any uses the ledger has the queues that they leave, the records that the passed requests
make, and all requests on record. -/
theorem agrees_after (l : Faulty) (uses : List Use) :
    (l.after uses).Agrees (queuedBy l.faults uses)
      (l.records.serve (passedOf l.faults uses)) (l.requests ++ uses.flatMap Use.asked) := by
  suffices from_here : ∀ {l : Faulty} {waiting m requests}, l.Agrees waiting m requests →
      (l.after uses).Agrees (queuedBy waiting uses) (m.serve (passedOf waiting uses))
        (requests ++ uses.flatMap Use.asked) from from_here ⟨rfl, rfl, rfl⟩
  induction uses with
  | nil =>
    intro l waiting m requests h
    rwa [List.flatMap_nil, List.append_nil]
  | cons u rest ih =>
    intro l waiting m requests h
    have := ih (h.on u)
    rwa [← Memory.serve_append, List.append_assoc, ← List.flatMap_cons] at this

/-- **Faults are exact and have no side effects.**  After any uses of a ledger, at any points in
time, let the plain ledger be one that got only those requests that met an empty queue.  Then the
ledger has the plain one's records, it has every request on record, and its queues are those that
the uses leave: each error that was held at first or pushed is met once, in that order, or waits
still.  If an error waits in the queue of the next request, the request fails with the one
in front and leaves the records alone; if none waits, it is answered as the plain ledger answers it,
and leaves the records that the plain one has then. -/
theorem faults_exact (l : Faulty) (uses : List Use) (now : Millis) (q : Request) :
    let plain := l.records.serve (passedOf l.faults uses)
    (l.after uses).records = plain ∧
      (l.after uses).requests = l.requests ++ uses.flatMap Use.asked ∧
      (l.after uses).faults = queuedBy l.faults uses ∧
      (∀ kind, metOf kind l.faults uses ++ queuedBy l.faults uses kind =
        l.faults kind ++ uses.flatMap (Use.pushed kind)) ∧
      match queuedBy l.faults uses q.kind with
      | e :: _ =>
        ((l.after uses).answer now q).1 = .error e ∧
          ((l.after uses).answer now q).2.records = (l.after uses).records
      | [] =>
        ((l.after uses).answer now q).1 = (plain.answer now q).1 ∧
          ((l.after uses).answer now q).2.records = (plain.answer now q).2 := by
  intro plain
  obtain ⟨hfaults, hrecords, hrequests⟩ := agrees_after l uses
  refine ⟨hrecords, hrequests, hfaults,
    fun kind => met_append_queuedBy kind l.faults uses, ?_⟩
  cases hq : queuedBy l.faults uses q.kind with
  | nil =>
    rw [← hfaults] at hq
    simp only [answer, hq, hrecords]
    exact ⟨rfl, rfl⟩
  | cons e es =>
    rw [← hfaults] at hq
    simp only [answer, hq]
    exact ⟨trivial, trivial⟩

end Faulty

end AtMostOnce.Ledger
