/-
What a run did and was told, act by act.

An account lists what a run did in the order in which it did it: what the clock, the cache
and the ledger answered, how the function began and ended, which stages were noted, and
when the run began anew.  What it left in its cache and which warnings it noted is not
part of it.

`Tells` says which accounts a dialogue can give, and with which results, whatever it is
answered.  There is one relation for each function of the engine, with one case for each
of its exits; together they say all that a run can do.  Nothing is said about the answers,
so whoever knows more of those knows which of the cases are left.
-/
import AtMostOnce.Proofs.Engine.Course
import AtMostOnce.Proofs.Trace

namespace AtMostOnce.Engine

open Dialogue

variable {α β γ : Type}

/-! ### Accounts -/

/-- What a run does, with what it is told then. -/
inductive Act (α : Type) where
  /-- It reads the clock. -/
  | reads (time : Millis)
  /-- It looks into the cache. -/
  | looks (found : Option Record)
  | claims (answer : Except Error Outcome)
  | finds (answer : Except Error Record)
  | starts
  | ends (outcome : Except Failure α)
  | completes (answer : Except Error Unit)
  | removes (answer : Except Error Unit)
  /-- It comes to a stage. -/
  | comes (stage : Stage)
  /-- It begins anew. -/
  | retries

/-- What is done by a question that is answered so. -/
def act? : (q : Request) → Answer α q → Option (Act α)
  | .now, t => some (.reads t)
  | .cached _, found => some (.looks found)
  | .ledger (.claim _), a => some (.claims a)
  | .ledger (.find _), a => some (.finds a)
  | .ledger (.complete _), a => some (.completes a)
  | .ledger (.remove _), a => some (.removes a)
  | .start, _ => some .starts
  | .finish, outcome => some (.ends outcome)
  | .note (.reached stage _), _ => some (.comes stage)
  | .note (.warning .retrying), _ => some .retries
  | .note (.warning _), _ => none
  | .keep _, _ => none
  | .forget _, _ => none

/-- The account of a trace. -/
def acts (said : Trace Request (Answer α)) : List (Act α) :=
  said.filterMap fun x => act? x.question x.answer

/-- Whatever is asked and answered goes into the account. -/
@[reducible] def accounting : Protocol Request (Answer α) (List (Act α)) where
  allows _ _ := True
  accepts _ _ := True
  after account q a := account ++ (act? q a).toList

theorem accounting_phase (account : List (Act α)) (said : Trace Request (Answer α)) :
    accounting.phase account said = account ++ acts said := by
  induction said generalizing account with
  | nil => exact (List.append_nil account).symm
  | cons x said ih =>
    refine (ih _).trans ?_
    rw [List.append_assoc, acts, acts, List.filterMap_cons]
    cases act? x.question x.answer <;> rfl

/-- Whatever the dialogue is answered, its account and its result are related. -/
def Tells (post : List (Act α) → β → Prop) (d : Action α β) : Prop :=
  ∀ before, d.Follows accounting (fun account b => ∃ l, account = before ++ l ∧ post l b) before

variable {post : List (Act α) → β → Prop} {post' : List (Act α) → γ → Prop} {d : Action α β}
  {f : β → Action α γ}

/-- The account of a dialogue that has ended. -/
theorem Tells.of_leads (h : Tells post d) {said : Trace Request (Answer α)} {b : β}
    (hl : d.Leads said (done b)) : post (acts said) b := by
  obtain ⟨l, haccount, hpost⟩ := ((h []).holds (fun _ _ => True) hl (fun _ _ => trivial) trivial
    fun _ _ _ _ _ _ => trivial).2
  rw [accounting_phase] at haccount
  obtain rfl : acts said = l := haccount
  exact hpost

theorem Tells.mono {post' : List (Act α) → β → Prop} (h : Tells post d)
    (hpost : ∀ l b, post l b → post' l b) : Tells post' d :=
  fun before => (h before).mono fun _ b hl => hl.imp fun l hl => ⟨hl.1, hpost l b hl.2⟩

theorem tells_done {b : β} (h : post [] b) : Tells post (done b) :=
  fun before => ⟨[], (List.append_nil before).symm, h⟩

theorem tells_ask {q : Request} {next : Answer α q → Action α β}
    (h : ∀ a, Tells (fun l b => post ((act? q a).toList ++ l) b) (next a)) :
    Tells post (ask q next) := by
  intro before
  refine ⟨trivial, fun a _ => (h a _).mono ?_⟩
  rintro account b ⟨l, rfl, hpost⟩
  exact ⟨_, List.append_assoc .., hpost⟩

theorem Tells.bind (h : Tells post d)
    (hf : ∀ l b, post l b → Tells (fun l' c => post' (l ++ l') c) (f b)) :
    Tells post' (d >>= f) := by
  intro before
  rw [follows_bind]
  refine (h before).mono ?_
  rintro account b ⟨l, rfl, hpost⟩
  refine (hf l b hpost _).mono ?_
  rintro account c ⟨l', rfl, hpost'⟩
  exact ⟨l ++ l', List.append_assoc .., hpost'⟩

/-! ### Single questions -/

theorem tells_now {f : Millis → Action α β}
    (h : ∀ t, Tells (fun l b => post (.reads t :: l) b) (f t)) : Tells post (now >>= f) :=
  tells_ask h

theorem tells_reached {stage : Stage} {n : Nat} {f : Unit → Action α β}
    (h : Tells (fun l b => post (.comes stage :: l) b) (f ())) :
    Tells post (reached stage n >>= f) :=
  tells_ask fun _ => h

section

variable {e : Engine} {r : Record} {f : Unit → Action α β}

theorem tells_keep (h : Tells post (f ())) : Tells post (e.keep r >>= f) := by
  rw [keep]
  split
  · exact tells_ask fun _ => h
  · exact h

theorem tells_forget {k : Key} (h : Tells post (f ())) : Tells post (e.forget k >>= f) := by
  rw [forget]
  split
  · exact tells_ask fun _ => h
  · exact h

theorem tells_deriveKey {v : Json.Value} {f : Except Error Key → Action α β}
    (h : Tells post (f (e.rule.derive v))) : Tells post (e.deriveKey v >>= f) := by
  rw [deriveKey]
  by_cases hw : e.rule.warns v = true
  · rw [if_pos hw]
    exact tells_ask fun _ => h
  · rw [if_neg hw]
    exact h

theorem tells_checkPayload {digest : String} {f : Except Error Unit → Action α β}
    (accepted : e.check.accepts r digest = true → Tells post (f (.ok ())))
    (refused : e.check.accepts r digest = false →
      Tells post (f (.error (.payloadValidation r.key)))) :
    Tells post (e.checkPayload r digest >>= f) := by
  rw [checkPayload, PayloadCheck.check]
  cases hacc : e.check.accepts r digest with
  | true => exact accepted hacc
  | false => exact tells_ask fun _ => refused hacc

end

/-! ### What the functions of the engine can do -/

section

variable (e : Engine) (enc : Encoding α)

/-- Ending a call with a record that stood in its way. -/
inductive Settling (k : Key) (r : Record) : List (Act α) → Except Error α → Prop
  | expired {t reason} (h : r.statusAt (secondsOf t) = .expired) :
    Settling k r [.reads t] (.error (.inconsistentState reason))
  | overdue {t t' reason} (h : r.statusAt (secondsOf t) = .inProgress)
    (late : r.isOverdue t' = true) :
    Settling k r [.reads t, .reads t'] (.error (.inconsistentState reason))
  | busy {t t'} (h : r.statusAt (secondsOf t) = .inProgress) (due : r.isOverdue t' = false) :
    Settling k r [.reads t, .reads t'] (.error (.alreadyInProgress k))
  | replays {t a} (h : r.statusAt (secondsOf t) = .completed)
    (decoded : e.replay enc ⟨k, e.functionName⟩ r = .ok a) :
    Settling k r [.reads t, .comes .returningCachedResult, .comes .completed] (.ok a)
  | spoilt {t err} (h : r.statusAt (secondsOf t) = .completed)
    (undecoded : e.replay enc ⟨k, e.functionName⟩ r = .error err) :
    Settling k r [.reads t, .comes .returningCachedResult] (.error err)

/-- Looking at the record that stood in the way of a claim. -/
inductive Resolving (k : Key) (digest : String) : List (Act α) → Except Error α → Prop
  | lost {err err'} (foreign : err'.isHandler = false) :
    Resolving k digest [.finds (.error err)] (.error err')
  | refused {r} (h : e.check.accepts r digest = false) :
    Resolving k digest [.finds (.ok r)] (.error (.payloadValidation r.key))
  | settles {r l result} (h : e.check.accepts r digest = true)
    (settling : Settling e enc k r l result) :
    Resolving k digest (.finds (.ok r) :: l) result

/-- Ending a call with the function's failure. -/
inductive Failing (f : Failure) : List (Act α) → Except Error α → Prop
  | rolledBack (rolls : e.settings.rollsBack f = true) :
    Failing f [.removes (.ok ()), .comes .rolledBack] (.error (.handler f))
  | stuck {err err'} (rolls : e.settings.rollsBack f = true) (foreign : err'.isHandler = false) :
    Failing f [.removes (.error err)] (.error err')
  | kept (keeps : e.settings.rollsBack f = false) :
    Failing f [.comes .failed] (.error (.handler f))

/-- Ending a call with the function's result. -/
inductive Finishing (k : Key) (a : α) : List (Act α) → Except Error α → Prop
  | unstorable {err} (h : enc.store ⟨k, e.functionName⟩ a = .error err) :
    Finishing k a [] (.error err.toError)
  | unsaved {t err err'} (foreign : err'.isHandler = false) :
    Finishing k a [.reads t, .completes (.error err)] (.error err')
  | saved {t} : Finishing k a [.reads t, .completes (.ok ()), .comes .completed] (.ok a)

/-- Calling the function. -/
inductive Calling (k : Key) : List (Act α) → Except Error α → Prop
  | returned {a l result} (h : Finishing e enc k a l result) :
    Calling k (.comes .wrappedCallRunning :: .starts :: .ends (.ok a) :: l) result
  | failed {f l result} (h : Failing e f l result) :
    Calling k (.comes .wrappedCallRunning :: .starts :: .ends (.error f) :: l) result

/-- Claiming a key, and what comes of that. -/
inductive Claiming (k : Key) (digest : String) :
    (started : Bool) → List (Act α) → Except Error α × Bool → Prop
  | fails {started err err'} (foreign : err'.isHandler = false) :
    Claiming k digest started [.claims (.error err)] (.error err', started)
  | spent {reason} :
    Claiming k digest true [.claims (.ok .created)] (.error (.inconsistentState reason), true)
  | calls {l result} (h : Calling e enc k l result) :
    Claiming k digest false (.claims (.ok .created) :: l) (result, true)
  | replays {started l a} (h : Resolving e enc k digest l (.ok a)) :
    Claiming k digest started (.claims (.ok .conflict) :: l) (.ok a, started)
  | meets {started l err} (h : Resolving e enc k digest l (.error err)) :
    Claiming k digest started (.claims (.ok .conflict) :: l ++ [.comes .failed])
      (.error err, started)

/-- One attempt at a call. -/
inductive Attempting (v : Json.Value) (started : Bool) : List (Act α) → Except Error α × Bool → Prop
  | keyless {err} (h : e.rule.derive v = .error err) : Attempting v started [] (.error err, started)
  | refused {k r} (hk : e.rule.derive v = .ok k) (hcaches : e.caches = true)
    (h : e.check.accepts r (e.check.compute v) = false) :
    Attempting v started [.comes .notStarted, .looks (some r)]
      (.error (.payloadValidation r.key), started)
  | hits {k r} (hk : e.rule.derive v = .ok k) (hcaches : e.caches = true)
    (h : e.check.accepts r (e.check.compute v) = true) :
    Attempting v started
      [.comes .notStarted, .looks (some r), .comes .returningCachedResult, .comes .completed]
      (e.replay enc ⟨k, e.functionName⟩ r, started)
  | claims {k look t t' l p} (hk : e.rule.derive v = .ok k)
    (hlook : look = if e.caches then [.looks none] else [])
    (h : Claiming e enc k (e.check.compute v) started l p) :
    Attempting v started
      (.comes .notStarted :: look ++ .reads t :: .reads t' :: .comes .savingInProgress :: l) p

/-- Attempts with so many retries left. -/
inductive Running (v : Json.Value) :
    (retries : Nat) → (started : Bool) → List (Act α) → Except Error α → Prop
  | last {retries started l result started'} (h : Attempting e enc v started l (result, started'))
    (final : retries = 0 ∨ ∀ err, result = .error err → err.isRetryable = false) :
    Running v retries started l result
  | again {retries started l err started' more result}
    (h : Attempting e enc v started l (.error err, started')) (retryable : err.isRetryable = true)
    (rest : Running v retries started' more result) :
    Running v (retries + 1) started (l ++ .retries :: more) result

end

/-! ### What they tell -/

section

variable {e : Engine} {enc : Encoding α} {n : Nat} {k : Key} {digest : String} {v : Json.Value}
  {left : Option Nat} {started : Bool}

/-- An error of the ledger is not passed off as the function's own. -/
theorem isHandler_orPersistence (err : Error) (doing : String) :
    (err.orPersistence doing).isHandler = false := by
  cases err <;> rfl

theorem tells_settleWith {r : Record} :
    Tells (Settling e enc k r) (e.settleWith enc ⟨k, e.functionName⟩ n k r) := by
  rw [settleWith]
  refine tells_now fun t => ?_
  cases hst : r.statusAt (secondsOf t) with
  | expired => exact tells_done (.expired hst)
  | inProgress =>
    refine tells_now fun t' => ?_
    cases hover : r.isOverdue t' with
    | true => exact tells_done (.overdue hst hover)
    | false => exact tells_done (.busy hst hover)
  | completed =>
    refine tells_keep (tells_reached ?_)
    cases hp : e.replay enc ⟨k, e.functionName⟩ r with
    | ok a => exact tells_reached (tells_done (.replays hst hp))
    | error err => exact tells_done (.spoilt hst hp)

theorem tells_resolveConflict :
    Tells (Resolving e enc k digest)
      (e.resolveConflict enc ⟨k, e.functionName⟩ n k digest) := by
  rw [resolveConflict]
  refine tells_ask fun answer => ?_
  cases answer with
  | error err => cases err <;> exact tells_done (.lost rfl)
  | ok r =>
    refine tells_checkPayload (fun hacc => ?_) fun hrefused => tells_done (.refused hrefused)
    exact tells_settleWith.mono fun l result => .settles hacc

theorem tells_remove {f : Except Error Unit → Action α β}
    (removed : Tells (fun l b => post (.removes (.ok ()) :: l) b) (f (.ok ())))
    (failed : ∀ err err', err'.isHandler = false →
      Tells (fun l b => post (.removes (.error err) :: l) b) (f (.error err'))) :
    Tells post (e.remove k >>= f) := by
  rw [remove, bind_bind]
  refine tells_ask fun answer => ?_
  cases answer with
  | error err => exact failed err _ (isHandler_orPersistence err _)
  | ok _ =>
    show Tells _ ((e.forget k >>= fun _ => done (.ok ())) >>= f)
    rw [bind_bind]
    exact tells_forget removed

theorem tells_failWith {f : Failure} : Tells (Failing e f) (e.failWith (α := α) n k f) := by
  rw [failWith]
  by_cases hrolls : e.settings.rollsBack f = true
  · rw [if_pos hrolls]
    exact tells_remove (tells_reached (tells_done (.rolledBack hrolls)))
      fun err err' foreign => tells_done (.stuck hrolls foreign)
  · rw [if_neg hrolls]
    exact tells_reached (tells_done (.kept (by simpa using hrolls)))

theorem tells_finishWith {claim : Record} {a : α} :
    Tells (Finishing e enc k a) (e.finishWith enc ⟨k, e.functionName⟩ n claim a) := by
  rw [finishWith]
  cases hst : enc.store ⟨k, e.functionName⟩ a with
  | error err => exact tells_done (.unstorable hst)
  | ok data =>
    refine tells_now fun t => tells_ask fun answer => ?_
    cases answer with
    | error err => exact tells_done (.unsaved (isHandler_orPersistence err _))
    | ok _ => exact tells_keep (tells_reached (tells_done .saved))

theorem tells_callFunction {claim : Record} :
    Tells (Calling e enc k) (e.callFunction enc ⟨k, e.functionName⟩ n claim) := by
  rw [callFunction]
  refine tells_reached (tells_ask fun _ => tells_ask fun outcome => ?_)
  cases outcome with
  | ok a => exact tells_finishWith.mono fun _ _ => .returned
  | error f => exact tells_failWith.mono fun _ _ => .failed

theorem tells_claim {remaining : Option Nat} :
    Tells (fun l p => ∃ t t' l', l = .reads t :: .reads t' :: .comes .savingInProgress :: l' ∧
        Claiming e enc k digest started l' p)
      (e.claim enc ⟨k, e.functionName⟩ n k digest remaining started) := by
  rw [claim, claimFor, bind_bind]
  refine tells_now fun t => ?_
  rw [bind_bind]
  refine tells_now fun t' => tells_reached (tells_ask fun answer => ?_)
  rcases answer with err | _ | _
  · exact tells_done ⟨t, t', _, rfl, .fails (isHandler_orPersistence err _)⟩
  · cases started with
    | true => exact tells_done ⟨t, t', _, rfl, .spent⟩
    | false =>
      show Tells _ (e.callFunction enc _ n _ >>= fun result => done (result, true))
      refine tells_callFunction.bind fun l result calling => ?_
      refine tells_done ⟨t, t', _, ?_, .calls calling⟩
      rw [List.append_nil]
      rfl
  · show Tells _ (e.resolveConflict enc _ n k digest >>= fun result => _)
    refine tells_resolveConflict.bind fun l result resolving => ?_
    cases result with
    | ok a =>
      refine tells_done ⟨t, t', _, ?_, .replays resolving⟩
      rw [List.append_nil]
      rfl
    | error err => exact tells_reached (tells_done ⟨t, t', _, rfl, .meets resolving⟩)

theorem tells_replayCached {r : Record} :
    Tells (fun l result =>
        e.check.accepts r digest = false ∧ l = [] ∧
            result = .error (.payloadValidation r.key) ∨
          e.check.accepts r digest = true ∧
            l = [.comes .returningCachedResult, .comes .completed] ∧
            result = e.replay enc ⟨k, e.functionName⟩ r)
      (e.replayCached enc ⟨k, e.functionName⟩ n digest r) := by
  rw [replayCached]
  exact tells_checkPayload
    (fun hacc => tells_reached (tells_reached (tells_done (.inr ⟨hacc, rfl, rfl⟩))))
    fun hrefused => tells_done (.inl ⟨hrefused, rfl, rfl⟩)

theorem tells_attempt :
    Tells (Attempting e enc v started) (e.attempt enc v left n started) := by
  rw [attempt]
  refine tells_deriveKey ?_
  cases hk : e.rule.derive v with
  | error err => exact tells_done (.keyless hk)
  | ok k =>
    refine tells_reached ?_
    rw [cached]
    by_cases hcaches : e.caches = true
    · rw [if_pos hcaches]
      refine tells_ask fun found => ?_
      cases found with
      | some r =>
        refine tells_replayCached.bind fun l result replayed => tells_done ?_
        obtain ⟨hrefused, rfl, rfl⟩ | ⟨hacc, rfl, rfl⟩ := replayed
        · exact .refused hk hcaches hrefused
        · exact .hits hk hcaches hacc
      | none =>
        refine tells_claim.mono fun l p => ?_
        rintro ⟨t, t', l', rfl, claiming⟩
        exact .claims hk (if_pos hcaches).symm claiming
    · rw [if_neg hcaches]
      refine tells_claim.mono fun l p => ?_
      rintro ⟨t, t', l', rfl, claiming⟩
      exact .claims hk (if_neg hcaches).symm claiming

theorem tells_attempts (retries : Nat) : ∀ (n : Nat) (started : Bool),
    Tells (Running e enc v retries started) (e.attempts enc v left retries n started) := by
  induction retries with
  | zero =>
    intro n started
    rw [attempts]
    refine tells_attempt.bind fun l p attempting => tells_done ?_
    rw [List.append_nil]
    exact .last attempting (.inl rfl)
  | succ retries ih =>
    intro n started
    rw [attempts]
    refine tells_attempt.bind ?_
    rintro l ⟨result, started'⟩ attempting
    cases result with
    | ok a =>
      refine tells_done ?_
      rw [List.append_nil]
      exact .last attempting (.inr (by simp))
    | error err =>
      by_cases hr : err.isRetryable = true
      · simp only [if_pos hr]
        exact tells_ask fun _ => (ih (n + 1) started').mono fun more result rest =>
          .again attempting hr rest
      · simp only [if_neg hr]
        refine tells_done ?_
        rw [List.append_nil]
        exact .last attempting (.inr (by simpa using hr))

/-- **Whatever a run is answered, its account is one of these.** -/
theorem tells_run {payload : Payload} (enabled : e.settings.disabled = false) :
    Tells (fun l result => (∃ reason, payload = .error reason ∧ l = [] ∧
          result = .error (.serialization reason)) ∨
        ∃ v, payload = .ok v ∧ Running e enc v e.settings.maxRetries false l result)
      (e.run enc payload left) := by
  rw [run.eq_def, if_neg (by simp [enabled])]
  cases payload with
  | error reason => exact tells_done (.inl ⟨reason, rfl, rfl, rfl⟩)
  | ok v => exact (tells_attempts _ 0 false).mono fun l result running => .inr ⟨v, rfl, running⟩

/-- What a call tells that is a run for a payload. -/
theorem tells_talk {κ : Type} {c : Call κ α} (ht : c.task = .run enc left)
    (hp : c.payload = .ok v) (enabled : c.engine.settings.disabled = false) :
    Tells (fun l ending => ∃ result, ending = .returned result ∧
        Running c.engine enc v c.engine.settings.maxRetries false l result) c.talk := by
  rw [Call.talk, ht, hp]
  refine (tells_run enabled).bind fun l result told => tells_done ⟨result, rfl, ?_⟩
  rw [List.append_nil]
  obtain ⟨reason, hreason, -⟩ | ⟨w, hw, running⟩ := told
  · cases hreason
  · cases hw
    exact running

end

end AtMostOnce.Engine
