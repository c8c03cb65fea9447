/-
Every change of the ledger is followed by one of the cache.

A call that completes or removes a record owes its cache the same: it must keep the
record, or forget the key.  An engine with a cache pays at once, before it asks for
anything else and before the call ends (`settles_talk`).
-/
import AtMostOnce.Proofs.Engine.Phase

namespace AtMostOnce.Engine

open Dialogue

/-- What a call owes its cache. -/
inductive Debt where
  | keep (r : Record)
  | forget (key : Key)
  deriving DecidableEq, Repr

namespace Debt

variable {α : Type}

def key : Debt → Key
  | keep r => r.key
  | forget k => k

/-- What is owed after a question was answered. -/
def after (s : Option Debt) : (q : Request) → Answer α q → Option Debt
  | .ledger (.complete r), _ => some (keep r)
  | .ledger (.remove k), _ => some (forget k)
  | .keep r, _ => if s = some (keep r) then none else s
  | .forget k, _ => if s = some (forget k) then none else s
  | _, _ => s

theorem after_keep (r : Record) : after (α := α) (some (keep r)) (.keep r) () = none := if_pos rfl

theorem after_forget (k : Key) :
    after (α := α) (some (forget k)) (.forget k) () = none := if_pos rfl

/-- A call in debt changes nothing in the ledger. -/
def allows (s : Option Debt) : Request → Prop
  | .ledger (.complete _) => s = none
  | .ledger (.remove _) => s = none
  | _ => True

@[reducible] def protocol : Protocol Request (Answer α) (Option Debt) :=
  ⟨allows, Call.honest, after⟩

end Debt

/-- The dialogue begins and ends without a debt. -/
def Settles {α β : Type} (d : Action α β) : Prop :=
  d.Follows Debt.protocol (fun s _ => s = none) none

variable {α β γ : Type} {e : Engine} {enc : Encoding α} {context : EncodingContext} {n : Nat}

theorem settles_done (b : β) : Settles (.done b : Action α β) := rfl

theorem settles_ask {q : Request} {next : Answer α q → Action α β}
    (hq : ∀ a : Answer α q, Debt.after none q a = none) (h : ∀ a, Settles (next a)) :
    Settles (.ask q next) := by
  refine ⟨?_, fun a _ => ?_⟩
  · show Debt.allows none q
    unfold Debt.allows
    split <;> trivial
  · show Follows Debt.protocol _ (next a) (Debt.after none q a)
    rw [hq a]
    exact h a

theorem Settles.bind {d : Action α β} {f : β → Action α γ} (h : Settles d)
    (hf : ∀ b, Settles (f b)) : Settles (d >>= f) := by
  refine (follows_bind d f none).mpr (h.mono ?_)
  rintro s b rfl
  exact hf b

/-! ### Dialogues without a debt -/

theorem settles_note (event : Event) : Settles (note event : Action α Unit) :=
  settles_ask (fun _ => rfl) fun _ => settles_done _

theorem settles_now : Settles (now : Action α Millis) :=
  settles_ask (fun _ => rfl) fun _ => settles_done _

theorem settles_keep (r : Record) : Settles (e.keep r : Action α Unit) := by
  unfold keep
  split
  · exact settles_ask (fun _ => rfl) fun _ => settles_done _
  · exact settles_done _

theorem settles_cached (k : Key) : Settles (e.cached k : Action α (Option Record)) := by
  unfold cached
  split
  · exact settles_ask (fun _ => rfl) fun _ => settles_done _
  · exact settles_done _

theorem settles_expiry : Settles (e.expiry : Action α Seconds) :=
  settles_now.bind fun _ => settles_done _

theorem settles_deriveKey (payload : Json.Value) :
    Settles (e.deriveKey payload : Action α (Except Error Key)) := by
  unfold deriveKey
  split
  · exact (settles_note _).bind fun _ => settles_done _
  · exact settles_done _

theorem settles_checkPayload (r : Record) (digest : String) :
    Settles (e.checkPayload r digest : Action α (Except Error Unit)) := by
  unfold checkPayload
  split
  · exact (settles_note _).bind fun _ => settles_done _
  · exact settles_done _

theorem settles_replayCached (digest : String) (r : Record) :
    Settles (e.replayCached enc context n digest r) := by
  refine (settles_checkPayload r digest).bind fun checked => ?_
  cases checked with
  | error err => exact settles_done _
  | ok _ => exact (settles_note _).bind fun _ => (settles_note _).bind fun _ => settles_done _

theorem settles_settleWith (k : Key) (r : Record) :
    Settles (e.settleWith enc context n k r) := by
  refine settles_now.bind fun t => ?_
  cases r.statusAt (secondsOf t) with
  | expired => exact settles_done _
  | inProgress =>
    refine settles_now.bind fun t' => ?_
    split
    · exact settles_done _
    · exact settles_done _
  | completed =>
    refine (settles_keep r).bind fun _ => (settles_note _).bind fun _ => ?_
    cases e.replay enc context r with
    | ok a => exact (settles_note _).bind fun _ => settles_done _
    | error err => exact settles_done _

theorem settles_resolveConflict (k : Key) (digest : String) :
    Settles (e.resolveConflict enc context n k digest) := by
  refine settles_ask (q := .ledger (.find k)) (fun _ => rfl) fun found => ?_
  cases found with
  | error err => cases err <;> exact settles_done _
  | ok r =>
    refine (settles_checkPayload r digest).bind fun checked => ?_
    cases checked with
    | error err => exact settles_done _
    | ok _ => exact settles_settleWith k r

/-! ### Debts that are paid -/

section

variable (caches : e.caches = true)

include caches

theorem settles_remove (k : Key) : Settles (e.remove k : Action α (Except Error Unit)) := by
  refine ⟨rfl, fun removed hremoved => ?_⟩
  obtain rfl : removed = .ok () := hremoved
  show Follows Debt.protocol _ (e.forget k >>= fun _ => _) (some (.forget k))
  rw [forget, if_pos caches]
  exact ⟨trivial, fun _ _ => Debt.after_forget (α := α) k⟩

theorem settles_finishWith (claimed : Record) (a : α) :
    Settles (e.finishWith enc context n claimed a) := by
  unfold finishWith
  cases enc.store context a with
  | error err => exact settles_done _
  | ok data =>
    refine settles_expiry.bind fun expiry => ?_
    refine ⟨rfl, fun completed hcompleted => ?_⟩
    obtain rfl : completed = .ok () := hcompleted
    show Follows Debt.protocol _ (e.keep _ >>= fun _ => _) (some (.keep _))
    rw [keep, if_pos caches]
    exact ⟨trivial, fun _ _ => ⟨trivial, fun _ _ => Debt.after_keep (α := α) _⟩⟩

theorem settles_failWith (k : Key) (f : Failure) : Settles (e.failWith (α := α) n k f) := by
  unfold failWith
  split
  · refine (settles_remove caches k).bind fun removed => ?_
    cases removed with
    | error err => exact settles_done _
    | ok _ => exact (settles_note _).bind fun _ => settles_done _
  · exact (settles_note _).bind fun _ => settles_done _

theorem settles_callFunction (claimed : Record) :
    Settles (e.callFunction enc context n claimed) := by
  refine (settles_note _).bind fun _ => ?_
  refine settles_ask (q := .start) (fun _ => rfl) fun _ => ?_
  refine settles_ask (q := .finish) (fun _ => rfl) fun outcome => ?_
  cases outcome with
  | ok a => exact settles_finishWith caches claimed a
  | error f => exact settles_failWith caches claimed.key f

theorem settles_claim (k : Key) (digest : String) (remaining : Option Nat) (started : Bool) :
    Settles (e.claim enc context n k digest remaining started) := by
  have hrecord : Settles (e.claimFor k digest remaining : Action α Record) :=
    settles_now.bind fun _ => settles_expiry.bind fun _ => settles_done _
  refine hrecord.bind fun record => (settles_note _).bind fun _ => ?_
  refine settles_ask (q := .ledger (.claim record)) (fun _ => rfl) fun claimed => ?_
  cases claimed with
  | error err => exact settles_done _
  | ok outcome =>
    cases outcome with
    | created =>
      cases started with
      | true => exact settles_done _
      | false => exact (settles_callFunction caches record).bind fun _ => settles_done _
    | conflict =>
      refine (settles_resolveConflict k digest).bind fun result => ?_
      cases result with
      | ok a => exact settles_done _
      | error err => exact (settles_note _).bind fun _ => settles_done _

theorem settles_attempt (payload : Json.Value) (remaining : Option Nat) (started : Bool) :
    Settles (e.attempt enc payload remaining n started) := by
  refine (settles_deriveKey payload).bind fun derived => ?_
  cases derived with
  | error err => exact settles_done _
  | ok k =>
    refine (settles_note _).bind fun _ => (settles_cached k).bind fun found => ?_
    cases found with
    | some r => exact (settles_replayCached _ r).bind fun _ => settles_done _
    | none => exact settles_claim caches k _ remaining started

theorem settles_attempts (payload : Json.Value) (remaining : Option Nat) (retries : Nat) :
    ∀ (n : Nat) (started : Bool), Settles (e.attempts enc payload remaining retries n started) := by
  induction retries with
  | zero =>
    intro n started
    exact (settles_attempt caches payload remaining started).bind fun _ => settles_done _
  | succ retries ih =>
    intro n started
    refine (settles_attempt caches payload remaining started).bind fun (result, started) => ?_
    cases result with
    | ok a => exact settles_done _
    | error err =>
      dsimp only
      split
      · exact (settles_note _).bind fun _ => ih (n + 1) started
      · exact settles_done _

end

/-- **A call of an engine with a cache ends without a debt.** -/
theorem settles_talk {κ : Type} {c : Call κ α} (caches : c.engine.caches = true) :
    Settles c.talk := by
  unfold Call.talk
  cases c.task with
  | run enc remaining =>
    refine Settles.bind ?_ fun _ => settles_done _
    rw [run.eq_def]
    split
    · refine settles_ask (q := .start) (fun _ => rfl) fun _ => ?_
      refine settles_ask (q := .finish) (fun _ => rfl) fun outcome => ?_
      cases outcome with
      | ok a => exact settles_done _
      | error f => exact settles_done _
    · cases c.payload with
      | error reason => exact settles_done _
      | ok payload => exact settles_attempts caches payload remaining _ 0 false
  | delete =>
    refine Settles.bind ?_ fun _ => settles_done _
    rw [delete, key.eq_def]
    cases c.payload with
    | error reason => exact settles_done _
    | ok payload =>
      refine (settles_deriveKey payload).bind fun derived => ?_
      cases derived with
      | error err => exact settles_done _
      | ok k =>
        refine (settles_remove caches k).bind fun removed => ?_
        cases removed with
        | error err => exact settles_done _
        | ok _ => exact settles_done _

end AtMostOnce.Engine
