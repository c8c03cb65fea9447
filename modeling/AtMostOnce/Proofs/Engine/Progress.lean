/-
How far a run has come, whatever it is answered.

Here no answer is ruled out: the ledger may fail at any request and with any error, and
the cache may hold anything.  `Stand` says where an attempt stands, with the answers that
brought it there, `Stand.concludes` how it may end there, and `Progress` what a run
remembers of the attempts before.  What matters for the retries is that an attempt that
has no function left to start is over as soon as it is granted a claim.
-/
import AtMostOnce.Proofs.Engine.Course
import AtMostOnce.Proofs.Trace

namespace AtMostOnce.Engine

open Dialogue

variable {α β : Type}

/-! ### Stands -/

/-- Where an attempt at a run stands. -/
inductive Stand (α : Type) where
  /-- Nothing was found and nothing claimed. -/
  | seeking
  /-- The cache had a record. -/
  | hit (r : Record)
  /-- The claim failed. -/
  | failed (err : Error)
  /-- The claim met another record. -/
  | denied
  /-- The record in the way could not be read. -/
  | lost (err : Error)
  /-- The record in the way. -/
  | met (r : Record)
  /-- The claim was granted, but the function was started in an earlier attempt. -/
  | spent
  /-- The claim was granted. -/
  | granted (claim : Record)
  /-- The function is about to be started. -/
  | announced (claim : Record)
  | running (claim : Record)
  | ended (claim : Record) (outcome : Except Failure α)
  /-- The result was to be stored. -/
  | stored (claim : Record) (a : α) (answer : Except Error Unit)
  /-- The claim was to be given up. -/
  | dropped (claim : Record) (f : Failure) (answer : Except Error Unit)
  /-- The function is called without any record. -/
  | apart

namespace Stand

/-- May the attempt do what concerns neither the ledger nor the function? -/
def isAtEase : Stand α → Prop
  | seeking | hit _ | lost _ | met _ | ended _ _ | stored _ _ (.ok _) | dropped _ _ (.ok _) => True
  | _ => False

/-- May an attempt at a run end so? -/
def concludes (e : Engine) (enc : Encoding α) : Stand α → Except Error α → Prop
  | seeking, result => ∃ v err, e.rule.derive v = .error err ∧ result = .error err
  | hit r, result =>
    result = .error (.payloadValidation r.key) ∨ ∃ context, result = e.replay enc context r
  | failed err, result => ∃ doing, result = .error (err.orPersistence doing)
  | lost (.itemNotFound _), result => ∃ reason, result = .error (.inconsistentState reason)
  | lost err, result => ∃ doing, result = .error (err.orPersistence doing)
  | met r, result =>
    result = .error (.payloadValidation r.key) ∨ (∃ context, result = e.replay enc context r) ∨
      (∃ k, result = .error (.alreadyInProgress k)) ∨
      ∃ reason, result = .error (.inconsistentState reason)
  | spent, result => ∃ reason, result = .error (.inconsistentState reason)
  | ended _ (.ok a), result =>
    ∃ context err, enc.store context a = .error err ∧ result = .error err.toError
  | ended _ (.error f), result => e.settings.rollsBack f = false ∧ result = .error (.handler f)
  | stored _ a (.ok _), result => result = .ok a
  | stored _ _ (.error err), result => ∃ doing, result = .error (err.orPersistence doing)
  | dropped _ f (.ok _), result => result = .error (.handler f)
  | dropped _ _ (.error err), result => ∃ doing, result = .error (err.orPersistence doing)
  | apart, result => (∃ a, result = .ok a) ∨ ∃ f, result = .error (.handler f)
  | _, _ => False

/-- May an attempt end with an inconsistent state? -/
def givesUp (e : Engine) (enc : Encoding α) (s : Stand α) : Prop :=
  ∃ reason, s.concludes e enc (.error (.inconsistentState reason))

end Stand

/-- How far a run has come. -/
structure Progress (α : Type) where
  /-- How many attempts were given up. -/
  retries : Nat
  /-- Was the function started? -/
  used : Bool
  stand : Stand α

namespace Progress

/-- Where a claim leads. -/
def claimed (p : Progress α) (r : Record) : Except Error Outcome → Stand α
  | .error err => .failed err
  | .ok .conflict => .denied
  | .ok .created => if p.used then .spent else .granted r

/-- What an answer makes of it. -/
def after (p : Progress α) : (q : Request) → Answer α q → Progress α
  | .cached _, some r => { p with stand := .hit r }
  | .ledger (.claim r), a => { p with stand := p.claimed r a }
  | .ledger (.find _), .ok r => { p with stand := .met r }
  | .ledger (.find _), .error err => { p with stand := .lost err }
  | .ledger (.complete _), a =>
    match p.stand with
    | .ended claim (.ok x) => { p with stand := .stored claim x a }
    | _ => p
  | .ledger (.remove _), a =>
    match p.stand with
    | .ended claim (.error f) => { p with stand := .dropped claim f a }
    | _ => p
  | .start, _ =>
    match p.stand with
    | .announced claim => { p with used := true, stand := .running claim }
    | _ => { p with used := true }
  | .finish, a =>
    match p.stand with
    | .running claim => { p with stand := .ended claim a }
    | _ => p
  | .note (.reached .wrappedCallRunning _), _ =>
    match p.stand with
    | .granted claim => { p with stand := .announced claim }
    | _ => p
  | .note (.warning .retrying), _ => { p with retries := p.retries + 1, stand := .seeking }
  | _, _ => p

/-- May this be asked, with so many retries at most? -/
def allows (e : Engine) (enc : Encoding α) (most : Nat) (p : Progress α) : Request → Prop
  | .now | .keep _ | .forget _ => p.stand.isAtEase
  | .cached _ => p.stand = .seeking
  | .ledger (.claim _) => p.stand = .seeking
  | .ledger (.find _) => p.stand = .denied
  | .ledger (.complete _) => ∃ claim a, p.stand = .ended claim (.ok a)
  | .ledger (.remove _) => ∃ claim f, p.stand = .ended claim (.error f)
  | .start => p.used = false ∧
      ((∃ claim, p.stand = .announced claim) ∨ p.stand = .apart ∧ e.settings.disabled = true)
  | .finish => (∃ claim, p.stand = .running claim) ∨ p.stand = .apart
  | .note (.reached .wrappedCallRunning _) => ∃ claim, p.stand = .granted claim
  | .note (.warning .retrying) => p.stand.givesUp e enc ∧ p.retries < most
  | .note _ => p.stand.isAtEase

end Progress

/-- What a run keeps to with so many retries at most, whatever it is answered. -/
@[reducible] def discipline (e : Engine) (enc : Encoding α) (most : Nat) :
    Protocol Request (Answer α) (Progress α) :=
  ⟨Progress.allows e enc most, fun _ _ => True, Progress.after⟩

/-! ### Questions that leave the stand as it is -/

section

variable {e : Engine} {enc : Encoding α} {most : Nat} {ends : Progress α → β → Prop}
  {p : Progress α}

theorem keeps_note {event : Event} (hnote : ∀ n, event ≠ .reached .wrappedCallRunning n)
    (hretry : event ≠ .warning .retrying) (ease : p.stand.isAtEase) {f : Unit → Action α β}
    (h : (f ()).Follows (e.discipline enc most) ends p) :
    (note event >>= f).Follows (e.discipline enc most) ends p := by
  cases event with
  | reached stage n =>
    cases stage with
    | wrappedCallRunning => exact absurd rfl (hnote n)
    | _ => exact ⟨ease, fun _ _ => h⟩
  | warning w =>
    cases w with
    | retrying => exact absurd rfl hretry
    | _ => exact ⟨ease, fun _ _ => h⟩

theorem keeps_reached {stage : Stage} {n : Nat} (hstage : stage ≠ .wrappedCallRunning)
    (ease : p.stand.isAtEase) {f : Unit → Action α β}
    (h : (f ()).Follows (e.discipline enc most) ends p) :
    (reached stage n >>= f).Follows (e.discipline enc most) ends p :=
  keeps_note (by simpa using hstage) (by simp) ease h

theorem keeps_now (ease : p.stand.isAtEase) {f : Millis → Action α β}
    (h : ∀ t, (f t).Follows (e.discipline enc most) ends p) :
    (now >>= f).Follows (e.discipline enc most) ends p :=
  ⟨ease, fun t _ => h t⟩

theorem keeps_expiry (ease : p.stand.isAtEase) {f : Seconds → Action α β}
    (h : ∀ expiry, (f expiry).Follows (e.discipline enc most) ends p) :
    (e.expiry >>= f).Follows (e.discipline enc most) ends p :=
  keeps_now ease fun _ => h _

theorem keeps_deriveKey (ease : p.stand.isAtEase) {v : Json.Value}
    {f : Except Error Key → Action α β}
    (h : (f (e.rule.derive v)).Follows (e.discipline enc most) ends p) :
    (e.deriveKey v >>= f).Follows (e.discipline enc most) ends p := by
  rw [follows_bind, deriveKey]
  by_cases hw : e.rule.warns v = true
  · rw [if_pos hw]
    exact keeps_note (by simp) (by simp) ease h
  · rw [if_neg hw]
    exact h

theorem keeps_checkPayload (ease : p.stand.isAtEase) {r : Record} {digest : String}
    {f : Except Error Unit → Action α β}
    (accepted : (f (.ok ())).Follows (e.discipline enc most) ends p)
    (refused : (f (.error (.payloadValidation r.key))).Follows (e.discipline enc most) ends p) :
    (e.checkPayload r digest >>= f).Follows (e.discipline enc most) ends p := by
  rw [follows_bind, checkPayload, PayloadCheck.check]
  cases e.check.accepts r digest with
  | true => exact accepted
  | false => exact keeps_note (by simp) (by simp) ease refused

theorem keeps_keep (ease : p.stand.isAtEase) {r : Record} {f : Unit → Action α β}
    (h : (f ()).Follows (e.discipline enc most) ends p) :
    (e.keep r >>= f).Follows (e.discipline enc most) ends p := by
  rw [keep]
  split
  · exact ⟨ease, fun _ _ => h⟩
  · exact h

theorem keeps_forget (ease : p.stand.isAtEase) {k : Key} {f : Unit → Action α β}
    (h : (f ()).Follows (e.discipline enc most) ends p) :
    (e.forget k >>= f).Follows (e.discipline enc most) ends p := by
  rw [forget]
  split
  · exact ⟨ease, fun _ _ => h⟩
  · exact h

end

/-! ### Attempts -/

section

variable {e : Engine} {enc : Encoding α} {context : EncodingContext} {most n m : Nat}
  {used : Bool}

/-- May an attempt end so that has begun after so many others? -/
def attemptEnds (e : Engine) (enc : Encoding α) (n : Nat) (p : Progress α)
    (end_ : Except Error α × Bool) : Prop :=
  p.stand.concludes e enc end_.1 ∧ p.used = end_.2 ∧ p.retries = n

theorem keeps_settleWith {k : Key} {r : Record} :
    (e.settleWith enc context m k r).Follows (e.discipline enc most)
      (fun p result => p = ⟨n, used, .met r⟩ ∧ p.stand.concludes e enc result)
      ⟨n, used, .met r⟩ := by
  rw [settleWith]
  refine keeps_now (by trivial) fun t => ?_
  cases r.statusAt (secondsOf t) with
  | expired => exact ⟨rfl, .inr (.inr (.inr ⟨_, rfl⟩))⟩
  | inProgress =>
    refine keeps_now (by trivial) fun t' => ?_
    split
    · exact ⟨rfl, .inr (.inr (.inr ⟨_, rfl⟩))⟩
    · exact ⟨rfl, .inr (.inr (.inl ⟨k, rfl⟩))⟩
  | completed =>
    refine keeps_keep (by trivial) (keeps_reached (by simp) (by trivial) ?_)
    cases hp : e.replay enc context r with
    | ok a =>
      exact keeps_reached (by simp) (by trivial) ⟨rfl, .inr (.inl ⟨context, hp.symm⟩)⟩
    | error err => exact ⟨rfl, .inr (.inl ⟨context, hp.symm⟩)⟩

/-- A conflict ends at a record, or where none could be read. -/
theorem keeps_resolveConflict {k : Key} {digest : String} :
    (e.resolveConflict enc context m k digest).Follows (e.discipline enc most)
      (fun p result => p.stand.isAtEase ∧ p.stand.concludes e enc result ∧ p.used = used ∧
        p.retries = n)
      ⟨n, used, .denied⟩ := by
  rw [resolveConflict]
  refine ⟨rfl, fun found _ => ?_⟩
  cases found with
  | error err => cases err <;> exact ⟨trivial, ⟨_, rfl⟩, rfl, rfl⟩
  | ok r =>
    show Follows (e.discipline enc most) _ _ (⟨n, used, .met r⟩ : Progress α)
    refine keeps_checkPayload (by trivial) ?_ ⟨trivial, .inl rfl, rfl, rfl⟩
    refine keeps_settleWith.mono ?_
    rintro p result ⟨rfl, hc⟩
    exact ⟨trivial, hc, rfl, rfl⟩

theorem keeps_replayCached {digest : String} {r : Record} :
    (e.replayCached enc context m digest r).Follows (e.discipline enc most)
      (fun p result => e.attemptEnds enc n p (result, used)) ⟨n, used, .hit r⟩ := by
  rw [replayCached]
  refine keeps_checkPayload (by trivial) ?_ ⟨.inl rfl, rfl, rfl⟩
  refine keeps_reached (by simp) (by trivial) (keeps_reached (by simp) (by trivial) ?_)
  exact ⟨.inr ⟨context, rfl⟩, rfl, rfl⟩

theorem keeps_failWith {claim : Record} {f : Failure} :
    (e.failWith (α := α) m claim.key f).Follows (e.discipline enc most)
      (fun p result => e.attemptEnds enc n p (result, true))
      ⟨n, true, .ended claim (.error f)⟩ := by
  rw [failWith]
  by_cases hb : e.settings.rollsBack f = true
  · rw [if_pos hb, follows_bind, remove]
    refine ⟨⟨claim, f, rfl⟩, fun removed _ => ?_⟩
    show Follows (e.discipline enc most) _ _ (⟨n, true, .dropped claim f removed⟩ : Progress α)
    cases removed with
    | error err => exact ⟨⟨_, rfl⟩, rfl, rfl⟩
    | ok _ => exact keeps_forget (by trivial) (keeps_reached (by simp) (by trivial) ⟨rfl, rfl, rfl⟩)
  · rw [if_neg hb]
    exact keeps_reached (by simp) (by trivial) ⟨⟨by simpa using hb, rfl⟩, rfl, rfl⟩

theorem keeps_finishWith {claim : Record} {a : α} :
    (e.finishWith enc context m claim a).Follows (e.discipline enc most)
      (fun p result => e.attemptEnds enc n p (result, true))
      ⟨n, true, .ended claim (.ok a)⟩ := by
  rw [finishWith]
  cases hst : enc.store context a with
  | error err => exact ⟨⟨context, err, hst, rfl⟩, rfl, rfl⟩
  | ok data =>
    refine keeps_expiry (by trivial) fun expiry => ⟨⟨claim, a, rfl⟩, fun stored _ => ?_⟩
    show Follows (e.discipline enc most) _ _ (⟨n, true, .stored claim a stored⟩ : Progress α)
    cases stored with
    | error err => exact ⟨⟨_, rfl⟩, rfl, rfl⟩
    | ok _ => exact keeps_keep (by trivial) (keeps_reached (by simp) (by trivial) ⟨rfl, rfl, rfl⟩)

theorem keeps_callFunction {claim : Record} :
    (e.callFunction enc context m claim).Follows (e.discipline enc most)
      (fun p result => e.attemptEnds enc n p (result, true)) ⟨n, false, .granted claim⟩ := by
  rw [callFunction]
  refine ⟨⟨claim, rfl⟩, fun _ _ => ⟨⟨rfl, .inl ⟨claim, rfl⟩⟩, fun _ _ => ⟨.inl ⟨claim, rfl⟩, ?_⟩⟩⟩
  intro outcome _
  show Follows (e.discipline enc most) _ _ (⟨n, true, .ended claim outcome⟩ : Progress α)
  cases outcome with
  | ok a => exact keeps_finishWith
  | error f => exact keeps_failWith

/-- A claim that is granted once the function was started ends the attempt. -/
theorem keeps_claim {k : Key} {digest : String} {left : Option Nat} :
    (e.claim enc context m k digest left used).Follows (e.discipline enc most)
      (e.attemptEnds enc n) ⟨n, used, .seeking⟩ := by
  rw [claim, follows_bind, claimFor]
  refine keeps_now (by trivial) fun t => keeps_expiry (by trivial) fun expiry => ?_
  refine keeps_reached (by simp) (by trivial) ⟨rfl, fun claimed _ => ?_⟩
  cases claimed with
  | error err => exact ⟨⟨_, rfl⟩, rfl, rfl⟩
  | ok outcome =>
    cases outcome with
    | created =>
      cases used with
      | true => exact ⟨⟨_, rfl⟩, rfl, rfl⟩
      | false => exact (follows_bind (e.callFunction enc context m _) _ _).mpr keeps_callFunction
    | conflict =>
      refine (follows_bind (e.resolveConflict enc context m k digest) _ _).mpr
        (keeps_resolveConflict.mono ?_)
      rintro p result ⟨ease, hc, rfl, rfl⟩
      cases result with
      | ok a => exact ⟨hc, rfl, rfl⟩
      | error err => exact keeps_reached (by simp) ease ⟨hc, rfl, rfl⟩

theorem keeps_attempt {v : Json.Value} {left : Option Nat} :
    (e.attempt enc v left m used).Follows (e.discipline enc most)
      (e.attemptEnds enc n) ⟨n, used, .seeking⟩ := by
  rw [attempt]
  refine keeps_deriveKey (by trivial) ?_
  cases hd : e.rule.derive v with
  | error err => exact ⟨⟨v, err, hd, rfl⟩, rfl, rfl⟩
  | ok k =>
    refine keeps_reached (by simp) (by trivial) ?_
    rw [follows_bind, cached]
    split
    · refine ⟨rfl, fun found _ => ?_⟩
      cases found with
      | none => exact keeps_claim
      | some r => exact (follows_bind (e.replayCached enc _ m _ r) _ _).mpr keeps_replayCached
    · exact keeps_claim

/-! ### Runs -/

theorem isRetryable_iff {err : Error} :
    err.isRetryable = true ↔ ∃ reason, err = .inconsistentState reason := by
  cases err <;> simp [Error.isRetryable]

theorem keeps_attempts {v : Json.Value} {left : Option Nat} (retries : Nat) :
    ∀ (n m : Nat) (used : Bool), n + retries = most →
      (e.attempts enc v left retries m used).Follows (e.discipline enc most)
        (fun p result => p.stand.concludes e enc result) ⟨n, used, .seeking⟩ := by
  induction retries with
  | zero =>
    intro n m used _
    rw [attempts, follows_bind]
    exact (keeps_attempt (n := n)).mono fun p _ hends => hends.1
  | succ retries ih =>
    intro n m used hn
    rw [attempts, follows_bind]
    refine (keeps_attempt (n := n)).mono ?_
    rintro ⟨n', used', stand⟩ ⟨result, started⟩ ⟨hc, hused, hretries⟩
    dsimp only at hc hused hretries
    subst hused hretries
    cases result with
    | ok a => exact hc
    | error err =>
      by_cases hr : err.isRetryable = true
      · obtain ⟨reason, rfl⟩ := isRetryable_iff.mp hr
        have hleft : n' < most := by omega
        exact ⟨⟨⟨reason, hc⟩, hleft⟩, fun _ _ => ih (n' + 1) _ _ (by omega)⟩
      · simp only [if_neg hr]
        exact hc

/-- Where a run begins. -/
def Progress.initial (e : Engine) : Progress α :=
  ⟨0, false, if e.settings.disabled then .apart else .seeking⟩

/-- May a run for a payload end so? -/
def runEnds (e : Engine) (enc : Encoding α) (payload : Payload) (p : Progress α)
    (result : Except Error α) : Prop :=
  (∃ reason, payload = .error reason ∧ result = .error (.serialization reason)) ∨
    p.stand.concludes e enc result

/-- **Whatever a run is answered, it keeps to its stands and ends as they say.** -/
theorem keeps_run (payload : Payload) (left : Option Nat) :
    (e.run enc payload left).Follows (e.discipline enc e.settings.maxRetries)
      (e.runEnds enc payload) (.initial e) := by
  rw [run.eq_def, Progress.initial]
  by_cases hdis : e.settings.disabled = true
  · rw [if_pos hdis, if_pos hdis]
    refine ⟨⟨rfl, .inr ⟨rfl, hdis⟩⟩, fun _ _ => ⟨.inr rfl, fun outcome _ => ?_⟩⟩
    cases outcome with
    | ok a => exact .inr (.inl ⟨a, rfl⟩)
    | error f => exact .inr (.inr ⟨f, rfl⟩)
  · rw [if_neg hdis, if_neg hdis]
    cases payload with
    | error reason => exact .inl ⟨reason, rfl, rfl⟩
    | ok v =>
      exact (keeps_attempts _ 0 0 false (Nat.zero_add _)).mono fun p _ hc => .inr hc

end

end AtMostOnce.Engine
