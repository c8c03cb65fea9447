/-
How far a call has come, and what it may ask there.

A call to an engine looks for a result until it is granted a claim; from then on it
holds the key: it starts the function, waits for it, and stores or drops what it
claimed.  `Phase` names these places together with the records met on the way,
`Call.allows` says what may be asked in each, and `Call.concludes` how a call may end
there.  The ledger is taken to answer as one in memory does, which never fails.
-/
import AtMostOnce.Engine
import AtMostOnce.Proofs.Protocol

namespace AtMostOnce.Engine

variable {κ α : Type}

/-! ### Calls -/

/-- What an engine is called for. -/
inductive Task (α : Type) where
  | run (encoding : Encoding α) (remaining : Option Nat)
  | delete

/-- A call to an engine that has one of several caches, if it has any. -/
structure Call (κ α : Type) where
  engine : Engine
  cache : κ
  payload : Payload
  task : Task α

/-- What comes of a call. -/
inductive Ending (α : Type) where
  | returned (result : Except Error α)
  | deleted (result : Except Error Key)

namespace Call

/-- What is asked and done in a call. -/
def talk (c : Call κ α) : Action α (Ending α) :=
  match c.task with
  | .run encoding remaining => do
    return .returned (← c.engine.run encoding c.payload remaining)
  | .delete => do return .deleted (← c.engine.delete c.payload)

/-- The key that the call is about. -/
def key? (c : Call κ α) : Option Key :=
  match c.payload with
  | .ok v => (c.engine.rule.derive v).toOption
  | .error _ => none

theorem key?_of_ok {c : Call κ α} {v : Json.Value} (h : c.payload = .ok v) :
    c.key? = (c.engine.rule.derive v).toOption := by rw [key?, h]

theorem key?_eq_some {c : Call κ α} {k : Key} (h : c.key? = some k) :
    ∃ v, c.payload = .ok v ∧ c.engine.rule.derive v = .ok k := by
  unfold key? at h
  split at h
  · rename_i v hv
    cases hk : c.engine.rule.derive v with
    | error err => simp [hk, Except.toOption] at h
    | ok k' =>
      obtain rfl : k' = k := by simpa [hk, Except.toOption] using h
      exact ⟨v, hv, hk⟩
  · cases h

/-- The digest of the checked part of the payload. -/
def digest (c : Call κ α) : String :=
  match c.payload with
  | .ok v => c.engine.check.compute v
  | .error _ => ""

/-- Does a record accept the payload of the call? -/
def accepts (c : Call κ α) (r : Record) : Prop := c.engine.check.accepts r c.digest = true

/-- Does the call go without any record? -/
def isApart (c : Call κ α) : Prop :=
  (∃ enc left, c.task = .run enc left) ∧ c.engine.settings.disabled = true

/-- May the call claim its key with the record? -/
def claims (c : Call κ α) (r : Record) : Prop :=
  ∃ k expiry deadline, c.key? = some k ∧
    r = ⟨k, .inProgress, some expiry, deadline, none, Record.nonEmptyHash (some c.digest)⟩

/-- Is a record the completed form of a claim, with the function's result stored in it? -/
def completes (c : Call κ α) (claimed : Record) (a : α) (r : Record) : Prop :=
  ∃ enc left data expiry, c.task = .run enc left ∧
    enc.store ⟨claimed.key, c.engine.functionName⟩ a = .ok data ∧
    r = ⟨claimed.key, .completed, some expiry, none, some data, claimed.payloadHash⟩

end Call

/-! ### Phases -/

/-- How far a call has come.  `again` says whether an attempt was given up before. -/
inductive Phase (α : Type) where
  /-- Nothing is held and nothing was found. -/
  | seeking (again : Bool)
  /-- The cache had a record. -/
  | hit (r : Record)
  /-- The claim was refused. -/
  | denied (again : Bool)
  /-- The record in the way was gone when it was looked at. -/
  | missing (again : Bool)
  /-- The record in the way. -/
  | read (again : Bool) (r : Record)
  /-- The record in the way, and the time by which it is judged. -/
  | judged (again : Bool) (r : Record) (time : Millis)
  /-- The claim was granted. -/
  | holding (claim : Record)
  /-- The function was started. -/
  | running (claim : Record)
  /-- The function has ended. -/
  | ended (claim : Record) (result : Except Failure α)
  /-- The result was stored. -/
  | stored (claim : Record) (a : α) (r : Record)
  /-- The claim was given up. -/
  | dropped (claim : Record) (f : Failure)
  /-- A record is being removed. -/
  | clearing
  /-- The function is called without any record. -/
  | apart

namespace Phase

def claim? : Phase α → Option Record
  | holding r | running r | ended r _ | stored r _ _ | dropped r _ => some r
  | _ => none

def again : Phase α → Bool
  | seeking b | denied b | missing b | read b _ | judged b _ _ => b
  | _ => false

/-- Is the record no longer in force, so that a claim should have been granted? -/
def isOver (r : Record) (time : Millis) : Prop := r.isReplaceable time = true ∨ r.status = .expired

/-- May the attempt be given up? -/
def givesUp : Phase α → Prop
  | missing _ => True
  | judged _ r t => isOver r t
  | _ => False

theorem givesUp.claim?_eq_none {s : Phase α} (h : s.givesUp) : s.claim? = none := by
  cases s with
  | missing b => rfl
  | judged b r t => rfl
  | _ => exact h.elim

/-- The phase to which an answer leads. -/
def after (s : Phase α) : (q : Request) → Answer α q → Phase α
  | .now, t =>
    match s with
    | read b r | judged b r _ => judged b r t
    | s => s
  | .cached _, a =>
    match s, a with
    | seeking _, some r => hit r
    | s, _ => s
  | .keep _, _ => s
  | .forget _, _ => s
  | .ledger (.claim r), a =>
    match s, a with
    | seeking _, .ok .created => holding r
    | seeking b, .ok .conflict => denied b
    | s, _ => s
  | .ledger (.find _), a =>
    match s, a with
    | denied b, .ok r => read b r
    | denied b, .error _ => missing b
    | s, _ => s
  | .ledger (.complete r), _ =>
    match s with
    | ended claim (.ok a) => stored claim a r
    | s => s
  | .ledger (.remove _), _ =>
    match s with
    | ended claim (.error f) => dropped claim f
    | s => s
  | .start, _ =>
    match s with
    | holding r => running r
    | s => s
  | .finish, a =>
    match s with
    | running r => ended r a
    | s => s
  | .note (.warning .retrying), _ =>
    match s with
    | missing _ | judged _ _ _ => seeking true
    | s => s
  | .note _, _ => s

/-! ### What an answer can do -/

/-- The ways from a phase to the next one. -/
inductive Move : Phase α → (q : Request) → Answer α q → Phase α → Prop
  | stays (s q a) : Move s q a s
  | hits (b k r) : Move (seeking b) (.cached k) (some r) (hit r)
  | claims (b r) : Move (seeking b) (.ledger (.claim r)) (.ok .created) (holding r)
  | meets (b r) : Move (seeking b) (.ledger (.claim r)) (.ok .conflict) (denied b)
  | reads (b k r) : Move (denied b) (.ledger (.find k)) (.ok r) (read b r)
  | misses (b k e) : Move (denied b) (.ledger (.find k)) (.error e) (missing b)
  | judges (b r t) : Move (read b r) .now t (judged b r t)
  | rejudges (b r t t') : Move (judged b r t) .now t' (judged b r t')
  | starts (r) : Move (holding r) .start () (running r)
  | finishes (r a) : Move (running r) .finish a (ended r a)
  | stores (r a w x) : Move (ended r (.ok a)) (.ledger (.complete w)) x (stored r a w)
  | drops (r f k x) : Move (ended r (.error f)) (.ledger (.remove k)) x (dropped r f)
  | retriesMissing (b) : Move (missing b) (.note (.warning .retrying)) () (seeking true)
  | retriesJudged (b r t) : Move (judged b r t) (.note (.warning .retrying)) () (seeking true)

theorem after_move (s : Phase α) (q : Request) (a : Answer α q) : Move s q a (s.after q a) := by
  unfold after
  split <;> (try split) <;> constructor

/-! ### What an answer leaves as it is -/

def hasStarted : Phase α → Prop
  | running _ | ended _ _ | stored _ _ _ | dropped _ _ => True
  | _ => False

/-- Was the claim completed or given up? -/
def isDone : Phase α → Prop
  | stored _ _ _ | dropped _ _ => True
  | _ => False

variable {s : Phase α}

theorem claim?_after {r : Record} (h : s.claim? = some r) (q : Request) (a : Answer α q) :
    (s.after q a).claim? = some r := by
  have hm := after_move s q a
  generalize s.after q a = s' at hm
  cases hm <;> first | exact h | cases h

theorem hasStarted_after (h : s.hasStarted) (q : Request) (a : Answer α q) :
    (s.after q a).hasStarted := by
  have hm := after_move s q a
  generalize s.after q a = s' at hm
  cases hm <;> first | exact h | trivial

theorem isDone_after (h : s.isDone) (q : Request) (a : Answer α q) : (s.after q a).isDone := by
  have hm := after_move s q a
  generalize s.after q a = s' at hm
  cases hm <;> first | exact h | exact h.elim

theorem clearing_of_after {q : Request} {a : Answer α q} (h : s.after q a = clearing) :
    s = clearing := by
  have hm := after_move s q a
  rw [h] at hm
  cases hm
  rfl

theorem apart_of_after {q : Request} {a : Answer α q} (h : s.after q a = apart) : s = apart := by
  have hm := after_move s q a
  rw [h] at hm
  cases hm
  rfl

end Phase

namespace Call

/-- May the call ask this in the phase? -/
def allows (c : Call κ α) (s : Phase α) : Request → Prop
  | .now => True
  | .cached k => (∃ b, s = .seeking b) ∧ c.key? = some k
  | .keep r =>
    (∃ b t, s = .judged b r t ∧ r.status = .completed ∧ r.isExpired (secondsOf t) = false) ∨
      ∃ claim a, s = .stored claim a r
  | .forget k =>
    (∃ claim f, s = .dropped claim f ∧ k = claim.key) ∨ (s = .clearing ∧ c.key? = some k)
  | .ledger (.claim r) => (∃ b, s = .seeking b) ∧ c.claims r
  | .ledger (.find k) => (∃ b, s = .denied b) ∧ c.key? = some k
  | .ledger (.complete r) => ∃ claim a, s = .ended claim (.ok a) ∧ c.completes claim a r
  | .ledger (.remove k) =>
    (∃ claim f, s = .ended claim (.error f) ∧ k = claim.key ∧
      c.engine.settings.rollsBack f = true) ∨ (s = .clearing ∧ c.key? = some k)
  | .start => (∃ claim, s = .holding claim) ∨ s = .apart
  | .finish => (∃ claim, s = .running claim) ∨ s = .apart
  | .note (.warning .retrying) => s.givesUp
  | .note _ => True

/-- Is this what a ledger in memory may answer? -/
def honest : (q : Request) → Answer α q → Prop
  | .ledger (.claim _), a => ∃ o, a = .ok o
  | .ledger (.find k), a => (∃ r, a = .ok r) ∨ a = .error (.itemNotFound k)
  | .ledger (.complete _), a => a = .ok ()
  | .ledger (.remove _), a => a = .ok ()
  | _, _ => True

/-- What a call keeps to, with a ledger in memory. -/
@[reducible] def protocol (c : Call κ α) : Protocol Request (Answer α) (Phase α) :=
  ⟨c.allows, honest, Phase.after⟩

def begins (c : Call κ α) : Phase α :=
  match c.task with
  | .run _ _ => if c.engine.settings.disabled then .apart else .seeking false
  | .delete => .clearing

theorem begins_cases (c : Call κ α) :
    c.begins = .apart ∨ c.begins = .seeking false ∨ c.begins = .clearing := by
  unfold begins
  split
  · split
    · exact .inl rfl
    · exact .inr (.inl rfl)
  · exact .inr (.inr rfl)

/-- A result that a found record leads to. -/
def replays (c : Call κ α) (enc : Encoding α) (r : Record) (result : Except Error α) : Prop :=
  c.accepts r ∧ ∃ k, c.key? = some k ∧
    result = c.engine.replay enc ⟨k, c.engine.functionName⟩ r

/-- May an attempt at a run end so? -/
def concludes (c : Call κ α) (enc : Encoding α) : Phase α → Except Error α → Prop
  | .seeking _, result => c.key? = none ∧ ∃ err, result = .error err ∧ err.isRetryable = false
  | .hit r, result =>
    (¬ c.accepts r ∧ result = .error (.payloadValidation r.key)) ∨ c.replays enc r result
  | .missing _, result => ∃ reason, result = .error (.inconsistentState reason)
  | .read _ r, result => ¬ c.accepts r ∧ result = .error (.payloadValidation r.key)
  | .judged _ r t, result =>
    (r.status = .inProgress ∧ ∃ k, c.key? = some k ∧ result = .error (.alreadyInProgress k)) ∨
    (r.status = .completed ∧ c.replays enc r result) ∨
    (Phase.isOver r t ∧ ∃ reason, result = .error (.inconsistentState reason))
  | .ended claim (.ok a), result =>
    ∃ err, enc.store ⟨claim.key, c.engine.functionName⟩ a = .error err ∧ result = .error err.toError
  | .ended _ (.error f), result =>
    c.engine.settings.rollsBack f = false ∧ result = .error (.handler f)
  | .stored _ a _, result => result = .ok a
  | .dropped _ f, result => result = .error (.handler f)
  | .apart, _ => True
  | _, _ => False

/-- May the call end so?  A run ends with an inconsistent state only if it may not try again. -/
def finishes (c : Call κ α) (s : Phase α) : Ending α → Prop
  | .returned result =>
    ∃ enc left, c.task = .run enc left ∧ c.concludes enc s result ∧
      ∀ reason, result = .error (.inconsistentState reason) → s ≠ .apart →
        s.again = false → c.engine.settings.maxRetries = 0
  | .deleted _ => c.task = .delete ∧ s = .clearing

end Call

end AtMostOnce.Engine
