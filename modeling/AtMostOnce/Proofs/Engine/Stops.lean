/-
Where a call stands, whichever ledger it asks.

The ledger may keep its records in memory or on a server of fields; all that is supposed
of it is that it grants, completes and removes without failing, and that what it finds is
about the key that it was asked for (`Call.told`).  A `Stop` remembers what the call was
told last.  It tells whether the cache was asked before the claim, and whether a record
that was given up is gone from the cache too, so that what is left under the call's key can
be read off the stop at which the call ends.

The rules of the route say what may be asked at a stop (`Call.mayAsk`).  A question that is
asked and answered by the rules is one of a few moves (`Call.mayAsk.move`); whatever holds
at the stops of a call is shown by going through these.
-/
import AtMostOnce.Proofs.Engine.Course

namespace AtMostOnce.Engine

open Dialogue

variable {κ α β : Type}

/-! ### Stops -/

/-- Where a call stands. -/
inductive Stop (α : Type) where
  /-- The cache was not asked in this attempt. -/
  | looking
  /-- The cache had a record. -/
  | found (r : Record)
  /-- The cache had none. -/
  | missed
  /-- The claim met another record. -/
  | denied
  /-- The record in the way could not be read. -/
  | lost (err : Error)
  /-- The record in the way. -/
  | met (r : Record)
  | granted (claim : Record)
  | running (claim : Record)
  | ended (claim : Record) (outcome : Except Failure α)
  | completed (claim : Record) (a : α)
  /-- The record was given up in the ledger. -/
  | removed (claim : Record) (f : Failure)
  /-- The record was given up in the cache as well. -/
  | forgotten (claim : Record) (f : Failure)
  /-- The record is to be removed. -/
  | clearing
  /-- The record was removed from the ledger. -/
  | cleared
  /-- The record was removed from the cache as well. -/
  | wiped
  /-- The function is called without any record. -/
  | apart

/-- The stop to which an answer leads. -/
def Stop.after (s : Stop α) : (q : Request) → Answer α q → Stop α
  | .cached _, some r => found r
  | .cached _, none => missed
  | .ledger (.claim r), .ok .created => granted r
  | .ledger (.claim _), _ => denied
  | .ledger (.find _), .ok r => met r
  | .ledger (.find _), .error err => lost err
  | .ledger (.complete _), _ =>
    match s with
    | ended claim (.ok a) => completed claim a
    | s => s
  | .ledger (.remove _), _ =>
    match s with
    | ended claim (.error f) => removed claim f
    | clearing => cleared
    | s => s
  | .forget _, _ =>
    match s with
    | removed claim f => forgotten claim f
    | cleared => wiped
    | s => s
  | .start, _ =>
    match s with
    | granted claim => running claim
    | s => s
  | .finish, outcome =>
    match s with
    | running claim => ended claim outcome
    | s => s
  | .note (.warning .retrying), _ => looking
  | _, _ => s

/-- May the attempt be given up? -/
def Stop.GivesUp (s : Stop α) : Prop := (∃ r, s = met r) ∨ ∃ err, s = lost err

namespace Call

variable (c : Call κ α)

/-- May the call ask this where it stands? -/
def mayAsk (s : Stop α) : Request → Prop
  | .cached k => s = .looking ∧ c.engine.caches = true ∧ c.key? = some k
  | .keep r => c.engine.caches = true ∧ c.key? = some r.key ∧
      (s = .met r ∧ r.status = .completed ∨
        ∃ claim a, s = .completed claim a ∧ c.completes claim a r)
  | .forget k => c.engine.caches = true ∧ c.key? = some k ∧
      ((∃ claim f, s = .removed claim f) ∨ s = .cleared)
  | .ledger (.claim r) => c.claims r ∧ (s = .missed ∨ s = .looking ∧ c.engine.caches = false)
  | .ledger (.find k) => s = .denied ∧ c.key? = some k
  | .ledger (.complete r) => c.key? = some r.key ∧
      ∃ claim a, s = .ended claim (.ok a) ∧ c.completes claim a r
  | .ledger (.remove k) => c.key? = some k ∧
      ((∃ claim f, s = .ended claim (.error f) ∧ c.engine.settings.rollsBack f = true) ∨
        s = .clearing)
  | .start => (∃ claim, s = .granted claim) ∨ s = .apart
  | .finish => (∃ claim, s = .running claim) ∨ s = .apart
  | .note (.warning .retrying) => s.GivesUp
  | _ => True

/-- Is this what a ledger and a cache tell that do not fail? -/
def told : (q : Request) → Answer α q → Prop
  | .cached k, a => ∀ r, a = some r → r.key = k
  | .ledger (.claim _), a => ∃ outcome, a = .ok outcome
  | .ledger (.find k), a => ∀ r, a = .ok r → r.key = k
  | .ledger (.complete _), a => a = .ok ()
  | .ledger (.remove _), a => a = .ok ()
  | _, _ => True

/-- What a call keeps to, whichever ledger it asks. -/
@[reducible] def route : Protocol Request (Answer α) (Stop α) := ⟨c.mayAsk, told, Stop.after⟩

/-- How a question and its answer lead a call on. -/
inductive Move : Stop α → (q : Request) → Answer α q → Stop α → Prop
  | now (s : Stop α) (t : Millis) : Move s .now t s
  | note (s : Stop α) {event : Event} (h : event ≠ .warning .retrying) :
    Move s (.note event) () s
  | retry {s : Stop α} (h : s.GivesUp) : Move s (.note (.warning .retrying)) () .looking
  | found {k : Key} {r : Record} (hcaches : c.engine.caches = true) (hk : c.key? = some k)
    (hr : r.key = k) : Move .looking (.cached k) (some r) (.found r)
  | missed {k : Key} (hcaches : c.engine.caches = true) (hk : c.key? = some k) :
    Move .looking (.cached k) none .missed
  | granted {s : Stop α} {r : Record} (h : c.claims r)
    (hs : s = .missed ∨ s = .looking ∧ c.engine.caches = false) :
    Move s (.ledger (.claim r)) (.ok .created) (.granted r)
  | denied {s : Stop α} {r : Record} (h : c.claims r)
    (hs : s = .missed ∨ s = .looking ∧ c.engine.caches = false) :
    Move s (.ledger (.claim r)) (.ok .conflict) .denied
  | met {k : Key} {r : Record} (hk : c.key? = some k) (hr : r.key = k) :
    Move .denied (.ledger (.find k)) (.ok r) (.met r)
  | lost {k : Key} {err : Error} (hk : c.key? = some k) :
    Move .denied (.ledger (.find k)) (.error err) (.lost err)
  | keepMet {r : Record} (hcaches : c.engine.caches = true) (hk : c.key? = some r.key)
    (hr : r.status = .completed) : Move (.met r) (.keep r) () (.met r)
  | keepCompleted {claim r : Record} {a : α} (hcaches : c.engine.caches = true)
    (hk : c.key? = some r.key) (h : c.completes claim a r) :
    Move (.completed claim a) (.keep r) () (.completed claim a)
  | starts {claim : Record} : Move (.granted claim) .start () (.running claim)
  | ends {claim : Record} {outcome : Except Failure α} :
    Move (.running claim) .finish outcome (.ended claim outcome)
  | completed {claim r : Record} {a : α} (hk : c.key? = some r.key) (h : c.completes claim a r) :
    Move (.ended claim (.ok a)) (.ledger (.complete r)) (.ok ()) (.completed claim a)
  | removed {k : Key} {claim : Record} {f : Failure} (hk : c.key? = some k)
    (h : c.engine.settings.rollsBack f = true) :
    Move (.ended claim (.error f)) (.ledger (.remove k)) (.ok ()) (.removed claim f)
  | cleared {k : Key} (hk : c.key? = some k) :
    Move .clearing (.ledger (.remove k)) (.ok ()) .cleared
  | forgotten {k : Key} {claim : Record} {f : Failure} (hcaches : c.engine.caches = true)
    (hk : c.key? = some k) : Move (.removed claim f) (.forget k) () (.forgotten claim f)
  | wiped {k : Key} (hcaches : c.engine.caches = true) (hk : c.key? = some k) :
    Move .cleared (.forget k) () .wiped
  | startsApart : Move .apart .start () .apart
  | endsApart {outcome : Except Failure α} : Move .apart .finish outcome .apart

/-- Where the call begins. -/
def departs : Stop α :=
  match c.task with
  | .run _ _ => if c.engine.settings.disabled then .apart else .looking
  | .delete => .clearing

/-- May a run end so where it stands? -/
def settles (enc : Encoding α) : Stop α → Except Error α → Prop
  | .looking, result => c.key? = none ∧
      ∃ err, result = .error err ∧ err.isRetryable = false ∧ err.isHandler = false
  | .found r, result =>
    (¬ c.accepts r ∧ result = .error (.payloadValidation r.key)) ∨ c.replays enc r result
  | .lost _, result => ∃ err, result = .error err ∧ err.isHandler = false
  | .met r, result =>
    (¬ c.accepts r ∧ result = .error (.payloadValidation r.key)) ∨ c.replays enc r result ∨
      result = .error (.alreadyInProgress r.key) ∨
      ∃ reason, result = .error (.inconsistentState reason)
  | .ended claim (.ok a), result =>
    ∃ err, enc.store ⟨claim.key, c.engine.functionName⟩ a = .error err ∧
      result = .error err.toError
  | .ended _ (.error f), result =>
    c.engine.settings.rollsBack f = false ∧ result = .error (.handler f)
  | .completed _ a, result => result = .ok a
  | .removed _ f, result => c.engine.caches = false ∧ result = .error (.handler f)
  | .forgotten _ f, result => result = .error (.handler f)
  | .apart, _ => True
  | _, _ => False

/-- May the call end so where it stands? -/
def arrives (s : Stop α) : Ending α → Prop
  | .returned result => ∃ enc left, c.task = .run enc left ∧ c.settles enc s result ∧
      (s = .apart → c.engine.settings.disabled = true)
  | .deleted (.ok k) => c.task = .delete ∧ c.key? = some k ∧
      (s = .wiped ∨ s = .cleared ∧ c.engine.caches = false)
  | .deleted (.error _) => c.task = .delete ∧ c.key? = none ∧ s = .clearing

end Call

variable {c : Call κ α} {enc : Encoding α} {ends : Stop α → β → Prop} {s : Stop α}

/-- A run begins by looking for a record. -/
theorem Call.departs_run {left : Option Nat} (ht : c.task = .run enc left)
    (enabled : c.engine.settings.disabled = false) : c.departs = .looking := by
  simp [departs, ht, enabled]

/-- Whatever a call may ask and may be told leads it on. -/
theorem Call.mayAsk.move {q : Request} {a : Answer α q} (hq : c.mayAsk s q) (ha : Call.told q a) :
    c.Move s q a (s.after q a) := by
  cases q with
  | now => exact .now s a
  | cached k =>
    obtain ⟨rfl, hcaches, hk⟩ := hq
    cases a with
    | none => exact .missed hcaches hk
    | some r => exact .found hcaches hk (ha r rfl)
  | keep r =>
    obtain ⟨hcaches, hk, ⟨rfl, hr⟩ | ⟨claim, x, rfl, hr⟩⟩ := hq
    · exact .keepMet hcaches hk hr
    · exact .keepCompleted hcaches hk hr
  | forget k =>
    obtain ⟨hcaches, hk, ⟨claim, f, rfl⟩ | rfl⟩ := hq
    · exact .forgotten hcaches hk
    · exact .wiped hcaches hk
  | ledger q =>
    cases q with
    | claim r =>
      obtain ⟨outcome, rfl⟩ := ha
      cases outcome with
      | created => exact .granted hq.1 hq.2
      | conflict => exact .denied hq.1 hq.2
    | find k =>
      obtain ⟨rfl, hk⟩ := hq
      cases a with
      | error err => exact .lost hk
      | ok r => exact .met hk (ha r rfl)
    | complete r =>
      obtain ⟨hk, claim, x, rfl, hr⟩ := hq
      obtain rfl : a = .ok () := ha
      exact .completed hk hr
    | remove k =>
      obtain rfl : a = .ok () := ha
      obtain ⟨hk, ⟨claim, f, rfl, hf⟩ | rfl⟩ := hq
      · exact .removed hk hf
      · exact .cleared hk
  | start =>
    obtain ⟨claim, rfl⟩ | rfl := hq
    · exact .starts
    · exact .startsApart
  | finish =>
    obtain ⟨claim, rfl⟩ | rfl := hq
    · exact .ends
    · exact .endsApart
  | note event =>
    cases event with
    | reached stage n => exact .note s (by rintro ⟨⟩)
    | warning w =>
      cases w with
      | retrying => exact .retry hq
      | _ => exact .note s (by rintro ⟨⟩)

theorem Call.Move.keep_key {r : Record} {a : Unit} {s' : Stop α} (h : c.Move s (.keep r) a s') :
    c.key? = some r.key := by
  cases h with
  | keepMet _ hk => exact hk
  | keepCompleted _ hk => exact hk

/-- A call asks the ledger about its own key only. -/
theorem Call.Move.ledger_key {q : Ledger.Request} {a : q.Answer} {s' : Stop α}
    (h : c.Move s (.ledger q) a s') : c.key? = some q.key := by
  cases h with
  | granted hclaims =>
    obtain ⟨k, expiry, deadline, hk, rfl⟩ := hclaims
    exact hk
  | denied hclaims =>
    obtain ⟨k, expiry, deadline, hk, rfl⟩ := hclaims
    exact hk
  | met hk => exact hk
  | lost hk => exact hk
  | completed hk => exact hk
  | removed hk => exact hk
  | cleared hk => exact hk

theorem Call.not_arrives_granted {claim : Record} {ending : Ending α} :
    ¬ c.arrives (.granted claim) ending := by
  intro h
  match ending with
  | .returned _ =>
    obtain ⟨_, _, -, hsettles, -⟩ := h
    exact hsettles
  | .deleted (.ok _) => obtain ⟨-, -, h | ⟨h, -⟩⟩ := h <;> cases h
  | .deleted (.error _) => cases h.2.2

/-! ### Questions that lead nowhere else -/

theorem route_note {event : Event} (hne : event ≠ .warning .retrying) {f : Unit → Action α β}
    (h : (f ()).Follows c.route ends s) : (note event >>= f).Follows c.route ends s := by
  cases event with
  | reached stage n => exact ⟨trivial, fun _ _ => h⟩
  | warning w =>
    cases w with
    | retrying => exact absurd rfl hne
    | _ => exact ⟨trivial, fun _ _ => h⟩

theorem route_reached {stage : Stage} {n : Nat} {f : Unit → Action α β}
    (h : (f ()).Follows c.route ends s) : (reached stage n >>= f).Follows c.route ends s :=
  route_note (by simp) h

theorem route_now {f : Millis → Action α β} (h : ∀ t, (f t).Follows c.route ends s) :
    (now >>= f).Follows c.route ends s :=
  ⟨trivial, fun t _ => h t⟩

theorem route_expiry {f : Seconds → Action α β}
    (h : ∀ expiry, (f expiry).Follows c.route ends s) :
    (c.engine.expiry >>= f).Follows c.route ends s :=
  route_now fun _ => h _

theorem route_deriveKey {v : Json.Value} {f : Except Error Key → Action α β}
    (h : (f (c.engine.rule.derive v)).Follows c.route ends s) :
    (c.engine.deriveKey v >>= f).Follows c.route ends s := by
  rw [follows_bind, deriveKey]
  by_cases hw : c.engine.rule.warns v = true
  · rw [if_pos hw]
    exact route_note (by simp) h
  · rw [if_neg hw]
    exact h

theorem route_checkPayload {r : Record} {f : Except Error Unit → Action α β}
    (h : (f (c.engine.check.check r c.digest)).Follows c.route ends s) :
    (c.engine.checkPayload r c.digest >>= f).Follows c.route ends s := by
  rw [follows_bind, checkPayload]
  by_cases ha : (!c.engine.check.accepts r c.digest) = true
  · rw [if_pos ha]
    exact route_note (by simp) h
  · rw [if_neg ha]
    exact h

theorem route_keep {r : Record} {f : Unit → Action α β}
    (hr : c.engine.caches = true → c.mayAsk s (.keep r)) (h : (f ()).Follows c.route ends s) :
    (c.engine.keep r >>= f).Follows c.route ends s := by
  rw [follows_bind, keep]
  split
  · rename_i hcaches
    exact ⟨hr hcaches, fun _ _ => h⟩
  · exact h

/-- Dropping a key from the cache leads on if there is a cache. -/
theorem route_forget {k : Key} {f : Unit → Action α β}
    (hk : c.engine.caches = true → c.mayAsk s (.forget k))
    (h : ∀ s', (c.engine.caches = true ∧ s' = s.after (α := α) (.forget k) () ∨
      c.engine.caches = false ∧ s' = s) → (f ()).Follows c.route ends s') :
    (c.engine.forget k >>= f).Follows c.route ends s := by
  rw [follows_bind, forget]
  split
  · rename_i hcaches
    exact ⟨hk hcaches, fun _ _ => h _ (.inl ⟨hcaches, rfl⟩)⟩
  · rename_i hcaches
    exact h _ (.inr ⟨by simpa using hcaches, rfl⟩)

/-! ### Attempts -/

variable {k : Key} {n : Nat} {left : Option Nat}

/-- How an attempt ends: only one that has not started the function may be given up. -/
def Call.attemptSettles (c : Call κ α) (enc : Encoding α) (s : Stop α)
    (p : Except Error α × Bool) : Prop :=
  c.settles enc s p.1 ∧ s ≠ .apart ∧ (s.GivesUp → p.2 = false)

theorem Call.replays.error {r : Record} {err : Error} (h : c.replays enc r (.error err)) :
    ∃ reason, err = .serialization reason := by
  obtain ⟨-, k, -, h⟩ := h
  exact replay_error h.symm

/-- An error worth another try arises only where the attempt may be given up. -/
theorem Call.settles.givesUp {err : Error} (h : c.settles enc s (.error err)) (hs : s ≠ .apart)
    (hr : err.isRetryable = true) : s.GivesUp := by
  have unretryable : ∀ {err' : Error}, err'.isRetryable = false →
      (.error err : Except Error α) = .error err' → False := by
    intro err' hn he
    cases he
    rw [hn] at hr
    cases hr
  have unreplayed : ∀ {r : Record}, ¬ c.replays enc r (.error err) := by
    intro r h
    obtain ⟨reason, rfl⟩ := h.error
    cases hr
  cases s with
  | looking =>
    obtain ⟨-, err', he, hn, -⟩ := h
    exact (unretryable hn he).elim
  | found r =>
    rcases h with ⟨-, h⟩ | h
    · exact (unretryable rfl h).elim
    · exact (unreplayed h).elim
  | lost err' => exact .inr ⟨err', rfl⟩
  | met r => exact .inl ⟨r, rfl⟩
  | ended claim outcome =>
    cases outcome with
    | ok a =>
      obtain ⟨err', -, h⟩ := h
      exact (unretryable rfl h).elim
    | error f => exact (unretryable rfl h.2).elim
  | completed claim a => cases h
  | removed claim f => exact (unretryable rfl h.2).elim
  | forgotten claim f => exact (unretryable rfl h).elim
  | apart => exact absurd rfl hs
  | _ => exact h.elim

/-- A run ends with the failure of its function only where that has ended so. -/
theorem Call.settles.of_handler {f : Failure} (h : c.settles enc s (.error (.handler f)))
    (hs : s ≠ .apart) :
    ∃ claim, (s = .ended claim (.error f) ∧ c.engine.settings.rollsBack f = false) ∨
      (s = .removed claim f ∧ c.engine.caches = false) ∨ s = .forgotten claim f := by
  have unreplayed : ∀ {r : Record}, ¬ c.replays enc r (.error (.handler f)) := by
    intro r h
    obtain ⟨reason, herr⟩ := h.error
    cases herr
  cases s with
  | looking =>
    obtain ⟨-, err, herr, -, hn⟩ := h
    cases herr
    cases hn
  | found r =>
    rcases h with ⟨-, herr⟩ | h
    · cases herr
    · exact (unreplayed h).elim
  | lost err =>
    obtain ⟨err', herr, hn⟩ := h
    cases herr
    cases hn
  | met r =>
    rcases h with ⟨-, herr⟩ | h | herr | ⟨reason, herr⟩
    · cases herr
    · exact (unreplayed h).elim
    · cases herr
    · cases herr
  | ended claim outcome =>
    cases outcome with
    | ok a =>
      obtain ⟨err, -, herr⟩ := h
      cases herr
    | error f' =>
      obtain ⟨hkeeps, herr⟩ := h
      cases herr
      exact ⟨claim, .inl ⟨rfl, hkeeps⟩⟩
  | completed claim a => cases h
  | removed claim f' =>
    obtain ⟨hcaches, herr⟩ := h
    cases herr
    exact ⟨claim, .inr (.inl ⟨rfl, hcaches⟩)⟩
  | forgotten claim f' =>
    cases h
    exact ⟨claim, .inr (.inr rfl)⟩
  | apart => exact absurd rfl hs
  | _ => exact h.elim

theorem route_settleWith {r : Record} (hk : c.key? = some k) (hr : r.key = k)
    (ha : c.accepts r) :
    (c.engine.settleWith enc ⟨k, c.engine.functionName⟩ n k r).Follows c.route
      (fun s result => s = .met r ∧ c.settles enc s result) (.met r) := by
  rw [settleWith]
  refine route_now fun t => ?_
  cases hst : r.statusAt (secondsOf t) with
  | expired => exact ⟨rfl, .inr (.inr (.inr ⟨_, rfl⟩))⟩
  | inProgress =>
    refine route_now fun t' => ?_
    split
    · exact ⟨rfl, .inr (.inr (.inr ⟨_, rfl⟩))⟩
    · exact ⟨rfl, .inr (.inr (.inl (by rw [hr])))⟩
  | completed =>
    have hcompleted : r.status = .completed := by
      unfold Record.statusAt at hst
      split at hst
      · cases hst
      · exact hst
    refine route_keep (fun hcaches => ⟨hcaches, by rw [hr]; exact hk, .inl ⟨rfl, hcompleted⟩⟩) ?_
    refine route_reached ?_
    cases hp : c.engine.replay enc ⟨k, c.engine.functionName⟩ r with
    | ok a => exact route_reached ⟨rfl, .inr (.inl ⟨ha, k, hk, hp.symm⟩)⟩
    | error err => exact ⟨rfl, .inr (.inl ⟨ha, k, hk, hp.symm⟩)⟩

theorem route_resolveConflict (hk : c.key? = some k) :
    (c.engine.resolveConflict enc ⟨k, c.engine.functionName⟩ n k c.digest).Follows c.route
      (fun s result => s.GivesUp ∧ c.settles enc s result) .denied := by
  rw [resolveConflict]
  refine ⟨⟨rfl, hk⟩, fun a ha => ?_⟩
  cases a with
  | error err =>
    show Follows c.route _ _ (Stop.lost err)
    cases err <;> exact ⟨.inr ⟨_, rfl⟩, _, rfl, rfl⟩
  | ok r =>
    show Follows c.route _ _ (Stop.met r)
    refine route_checkPayload ?_
    unfold PayloadCheck.check
    by_cases hacc : c.engine.check.accepts r c.digest = true
    · rw [if_pos hacc]
      refine (route_settleWith hk (ha r rfl) hacc).mono ?_
      rintro s result ⟨rfl, hc⟩
      exact ⟨.inl ⟨r, rfl⟩, hc⟩
    · rw [if_neg hacc]
      exact ⟨.inl ⟨r, rfl⟩, .inl ⟨hacc, rfl⟩⟩

theorem route_replayCached {r : Record} (hk : c.key? = some k) :
    (c.engine.replayCached enc ⟨k, c.engine.functionName⟩ n c.digest r).Follows c.route
      (fun s result => c.attemptSettles enc s (result, false)) (.found r) := by
  rw [replayCached]
  refine route_checkPayload ?_
  unfold PayloadCheck.check
  by_cases hacc : c.engine.check.accepts r c.digest = true
  · rw [if_pos hacc]
    exact route_reached (route_reached ⟨.inr ⟨hacc, k, hk, rfl⟩, by rintro ⟨⟩, fun _ => rfl⟩)
  · rw [if_neg hacc]
    exact ⟨.inl ⟨hacc, rfl⟩, by rintro ⟨⟩, fun _ => rfl⟩

theorem not_givesUp {claim : Record} {outcome : Except Failure α} :
    ¬ (Stop.ended claim outcome).GivesUp := by
  rintro (⟨_, h⟩ | ⟨_, h⟩) <;> cases h

theorem route_failWith {claim : Record} {f : Failure} (hk : c.key? = some claim.key) :
    (c.engine.failWith (α := α) n claim.key f).Follows c.route
      (fun s result => c.attemptSettles enc s (result, true)) (.ended claim (.error f)) := by
  rw [failWith]
  by_cases hb : c.engine.settings.rollsBack f = true
  · rw [if_pos hb, follows_bind, remove]
    refine ⟨⟨hk, .inl ⟨claim, f, rfl, hb⟩⟩, fun a ha => ?_⟩
    obtain rfl : a = .ok () := ha
    show Follows c.route _ _ (Stop.removed claim f)
    refine route_forget (fun hcaches => ⟨hcaches, hk, .inl ⟨claim, f, rfl⟩⟩) ?_
    rintro s (⟨-, rfl⟩ | ⟨hcaches, rfl⟩)
    · exact route_reached ⟨rfl, by rintro ⟨⟩, by rintro (⟨_, h⟩ | ⟨_, h⟩) <;> cases h⟩
    · exact route_reached ⟨⟨hcaches, rfl⟩, by rintro ⟨⟩, by rintro (⟨_, h⟩ | ⟨_, h⟩) <;> cases h⟩
  · rw [if_neg hb]
    exact route_reached ⟨⟨by simpa using hb, rfl⟩, by rintro ⟨⟩, fun h => absurd h not_givesUp⟩

theorem route_finishWith {claim : Record} {a : α} {left' : Option Nat}
    (ht : c.task = .run enc left') (hk : c.key? = some claim.key) :
    (c.engine.finishWith enc ⟨claim.key, c.engine.functionName⟩ n claim a).Follows c.route
      (fun s result => c.attemptSettles enc s (result, true)) (.ended claim (.ok a)) := by
  rw [finishWith]
  cases hst : enc.store ⟨claim.key, c.engine.functionName⟩ a with
  | error err => exact ⟨⟨err, hst, rfl⟩, by rintro ⟨⟩, fun h => absurd h not_givesUp⟩
  | ok data =>
    refine route_expiry fun expiry => ?_
    have completes : c.completes claim a
        ⟨claim.key, .completed, some expiry, none, some data, claim.payloadHash⟩ :=
      ⟨enc, left', data, expiry, ht, hst, rfl⟩
    refine ⟨⟨hk, claim, a, rfl, completes⟩, fun answer ha => ?_⟩
    obtain rfl : answer = .ok () := ha
    show Follows c.route _ _ (Stop.completed claim a)
    refine route_keep (fun hcaches => ⟨hcaches, hk, .inr ⟨claim, a, rfl, completes⟩⟩) ?_
    exact route_reached ⟨rfl, by rintro ⟨⟩, by rintro (⟨_, h⟩ | ⟨_, h⟩) <;> cases h⟩

theorem route_callFunction {claim : Record} {left' : Option Nat} (ht : c.task = .run enc left')
    (hk : c.key? = some claim.key) :
    (c.engine.callFunction enc ⟨claim.key, c.engine.functionName⟩ n claim).Follows c.route
      (fun s result => c.attemptSettles enc s (result, true)) (.granted claim) := by
  rw [callFunction]
  refine route_reached ⟨.inl ⟨claim, rfl⟩, fun _ _ => ⟨.inl ⟨claim, rfl⟩, fun outcome _ => ?_⟩⟩
  show Follows c.route _ _ (Stop.ended claim outcome)
  cases outcome with
  | ok a => exact route_finishWith ht hk
  | error f => exact route_failWith hk

theorem route_claim {left' : Option Nat} (ht : c.task = .run enc left') (hk : c.key? = some k)
    (hs : s = .missed ∨ s = .looking ∧ c.engine.caches = false) :
    (c.engine.claim enc ⟨k, c.engine.functionName⟩ n k c.digest left false).Follows c.route
      (c.attemptSettles enc) s := by
  rw [claim, follows_bind, claimFor]
  refine route_now fun t => route_expiry fun expiry => route_reached ?_
  refine ⟨⟨⟨k, expiry, _, hk, rfl⟩, hs⟩, fun a ha => ?_⟩
  obtain ⟨outcome, rfl⟩ : ∃ outcome, a = .ok outcome := ha
  cases outcome with
  | created =>
    exact (follows_bind (c.engine.callFunction enc _ n _) _ _).mpr (route_callFunction ht hk)
  | conflict =>
    show Follows c.route _ _ Stop.denied
    refine (follows_bind (c.engine.resolveConflict enc _ n k _) _ _).mpr
      ((route_resolveConflict hk).mono ?_)
    rintro s result ⟨hgives, hc⟩
    have hs : s ≠ .apart := by
      rintro rfl
      rcases hgives with ⟨_, h⟩ | ⟨_, h⟩ <;> cases h
    cases result with
    | ok a => exact ⟨hc, hs, fun _ => rfl⟩
    | error err => exact route_reached ⟨hc, hs, fun _ => rfl⟩

theorem route_attempt {v : Json.Value} {left' : Option Nat} (ht : c.task = .run enc left')
    (hp : c.payload = .ok v) :
    (c.engine.attempt enc v left n false).Follows c.route (c.attemptSettles enc) .looking := by
  rw [attempt]
  refine route_deriveKey ?_
  cases hd : c.engine.rule.derive v with
  | error err =>
    have hk : c.key? = none := by
      rw [Call.key?_of_ok hp, hd]
      rfl
    exact ⟨⟨hk, err, rfl, derive_error hd, isHandler_derive hd⟩, by rintro ⟨⟩, fun _ => rfl⟩
  | ok k =>
    have hk : c.key? = some k := by
      rw [Call.key?_of_ok hp, hd]
      rfl
    have hdigest : c.engine.check.compute v = c.digest := by rw [Call.digest, hp]
    refine route_reached ?_
    rw [hdigest, follows_bind, cached]
    split
    · rename_i hcaches
      refine ⟨⟨rfl, hcaches, hk⟩, fun found _ => ?_⟩
      cases found with
      | none => exact route_claim ht hk (.inl rfl)
      | some r =>
        exact (follows_bind (c.engine.replayCached enc _ n _ r) _ _).mpr (route_replayCached hk)
    · rename_i hcaches
      exact route_claim ht hk (.inr ⟨rfl, by simpa using hcaches⟩)

/-! ### Calls -/

theorem route_attempts {v : Json.Value} (ht : c.task = .run enc left) (hp : c.payload = .ok v) :
    ∀ retries n : Nat, (c.engine.attempts enc v left retries n false).Follows c.route
      (fun s result => c.settles enc s result ∧ s ≠ .apart) .looking := by
  intro retries
  induction retries with
  | zero =>
    intro n
    rw [attempts, follows_bind]
    exact (route_attempt ht hp).mono fun s p h => ⟨h.1, h.2.1⟩
  | succ retries ih =>
    intro n
    rw [attempts, follows_bind]
    refine (route_attempt ht hp).mono ?_
    rintro s ⟨result, started⟩ ⟨hc, hs, hfresh⟩
    cases result with
    | ok a => exact ⟨hc, hs⟩
    | error err =>
      by_cases hr : err.isRetryable = true
      · have hgives := hc.givesUp hs hr
        obtain rfl : started = false := hfresh hgives
        simp only [if_pos hr]
        exact ⟨hgives, fun _ _ => ih (n + 1)⟩
      · simp only [if_neg hr]
        exact ⟨hc, hs⟩

/-- **Every call keeps to its stops, whichever ledger it asks, and ends as they say.** -/
theorem talk_route (c : Call κ α) : c.talk.Follows c.route c.arrives c.departs := by
  unfold Call.talk Call.departs
  cases ht : c.task with
  | run enc left =>
    dsimp only
    rw [follows_bind, run.eq_def]
    by_cases hdis : c.engine.settings.disabled = true
    · rw [if_pos hdis, if_pos hdis]
      refine ⟨.inr rfl, fun _ _ => ⟨.inr rfl, fun outcome _ => ?_⟩⟩
      show Follows c.route _ _ Stop.apart
      cases outcome <;> exact ⟨enc, left, ht, trivial, fun _ => hdis⟩
    · rw [if_neg hdis, if_neg hdis]
      cases hp : c.payload with
      | error reason =>
        have hk : c.key? = none := by rw [Call.key?, hp]
        exact ⟨enc, left, ht, ⟨hk, _, rfl, rfl, rfl⟩, by rintro ⟨⟩⟩
      | ok v =>
        exact (route_attempts ht hp _ 0).mono fun s result h =>
          ⟨enc, left, ht, h.1, fun hapart => absurd hapart h.2⟩
  | delete =>
    dsimp only
    rw [follows_bind, delete, key.eq_def]
    cases hp : c.payload with
    | error reason =>
      have hk : c.key? = none := by rw [Call.key?, hp]
      exact ⟨ht, hk, rfl⟩
    | ok v =>
      refine route_deriveKey ?_
      cases hd : c.engine.rule.derive v with
      | error err =>
        have hk : c.key? = none := by
          rw [Call.key?_of_ok hp, hd]
          rfl
        exact ⟨ht, hk, rfl⟩
      | ok k =>
        have hk : c.key? = some k := by
          rw [Call.key?_of_ok hp, hd]
          rfl
        refine (follows_bind (c.engine.remove k) _ _).mpr ?_
        rw [remove]
        refine ⟨⟨hk, .inr rfl⟩, fun a ha => ?_⟩
        obtain rfl : a = .ok () := ha
        show Follows c.route _ _ Stop.cleared
        refine route_forget (fun hcaches => ⟨hcaches, hk, .inr rfl⟩) ?_
        rintro s (⟨-, rfl⟩ | ⟨hcaches, rfl⟩)
        · exact ⟨ht, hk, .inl rfl⟩
        · exact ⟨ht, hk, .inr ⟨rfl, hcaches⟩⟩

/-- A run ends with a result. -/
theorem Call.arrives.of_run {ending : Ending α} (h : c.arrives s ending)
    (ht : c.task = .run enc left) : ∃ result, ending = .returned result ∧
      c.settles enc s result ∧ (s = .apart → c.engine.settings.disabled = true) := by
  cases ending with
  | returned result =>
    obtain ⟨enc', left', ht', hsettles, hapart⟩ := h
    cases ht.symm.trans ht'
    exact ⟨result, rfl, hsettles, hapart⟩
  | deleted result =>
    cases result with
    | ok k => cases ht.symm.trans h.1
    | error err => cases ht.symm.trans h.1

end AtMostOnce.Engine
