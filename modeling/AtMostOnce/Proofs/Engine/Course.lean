/-
Every call keeps to its phases.

One lemma for each part of the engine says in which phase it begins and in which it
ends; `talk_follows` puts them together.  What makes the retries work out is that an
attempt fails with an error worth another try only where its phase may give up, and
then it has not held the key.
-/
import AtMostOnce.Proofs.Engine.Phase

namespace AtMostOnce.Engine

open Dialogue

variable {κ α β : Type} {c : Call κ α} {enc : Encoding α} {ends : Phase α → β → Prop}
  {s : Phase α}

/-! ### Questions that lead to no other phase -/

theorem follows_note {event : Event} (hne : event ≠ .warning .retrying) {f : Unit → Action α β}
    (h : (f ()).Follows c.protocol ends s) : (note event >>= f).Follows c.protocol ends s := by
  cases event with
  | reached stage n => exact ⟨trivial, fun _ _ => h⟩
  | warning w =>
    cases w with
    | emptyMaterial => exact ⟨trivial, fun _ _ => h⟩
    | payloadMismatch => exact ⟨trivial, fun _ _ => h⟩
    | retrying => exact absurd rfl hne

theorem follows_reached {stage : Stage} {n : Nat} {f : Unit → Action α β}
    (h : (f ()).Follows c.protocol ends s) : (reached stage n >>= f).Follows c.protocol ends s :=
  follows_note (by simp) h

theorem follows_now {f : Millis → Action α β}
    (h : ∀ t, (f t).Follows c.protocol ends (s.after .now t)) :
    (now >>= f).Follows c.protocol ends s :=
  ⟨trivial, fun t _ => h t⟩

theorem follows_expiry {e : Engine} {f : Seconds → Action α β} (hs : ∀ t, s.after .now t = s)
    (h : ∀ expiry, (f expiry).Follows c.protocol ends s) :
    (e.expiry >>= f).Follows c.protocol ends s := by
  rw [follows_bind, expiry]
  exact follows_now fun t => by rw [hs t]; exact h _

theorem follows_deriveKey {e : Engine} {v : Json.Value} {f : Except Error Key → Action α β}
    (h : (f (e.rule.derive v)).Follows c.protocol ends s) :
    (e.deriveKey v >>= f).Follows c.protocol ends s := by
  rw [follows_bind, deriveKey]
  by_cases hw : e.rule.warns v = true
  · rw [if_pos hw]
    exact follows_note (by simp) h
  · rw [if_neg hw]
    exact h

theorem follows_checkPayload {e : Engine} {r : Record} {digest : String}
    {f : Except Error Unit → Action α β}
    (h : (f (e.check.check r digest)).Follows c.protocol ends s) :
    (e.checkPayload r digest >>= f).Follows c.protocol ends s := by
  rw [follows_bind, checkPayload]
  by_cases ha : (!e.check.accepts r digest) = true
  · rw [if_pos ha]
    exact follows_note (by simp) h
  · rw [if_neg ha]
    exact h

theorem follows_keep {e : Engine} {r : Record} {f : Unit → Action α β}
    (hr : c.allows s (.keep r)) (h : (f ()).Follows c.protocol ends s) :
    (e.keep r >>= f).Follows c.protocol ends s := by
  rw [follows_bind, keep]
  split
  · exact ⟨hr, fun _ _ => h⟩
  · exact h

theorem follows_forget {e : Engine} {k : Key} {f : Unit → Action α β}
    (hk : c.allows s (.forget k)) (h : (f ()).Follows c.protocol ends s) :
    (e.forget k >>= f).Follows c.protocol ends s := by
  rw [follows_bind, forget]
  split
  · exact ⟨hk, fun _ _ => h⟩
  · exact h

/-! ### Ends of attempts -/

/-- A result that cannot be replayed is a serialization error. -/
theorem replay_error {e : Engine} {ctx : EncodingContext} {r : Record} {err : Error}
    (h : e.replay enc ctx r = .error err) : ∃ reason, err = .serialization reason := by
  unfold replay at h
  dsimp only at h
  split at h
  · injection h with h
    exact ⟨_, h.symm⟩
  · split at h
    · cases h
    · injection h with h
      exact ⟨_, h.symm⟩
  · split at h
    · split at h
      · cases h
      · injection h with h
        exact ⟨_, h.symm⟩
    · injection h with h
      exact ⟨_, h.symm⟩

/-- An error worth another try arises only where the attempt may be given up. -/
theorem Call.concludes.givesUp {err : Error} (h : c.concludes enc s (.error err))
    (hs : s ≠ .apart) (hr : err.isRetryable = true) : s.givesUp := by
  cases s with
  | seeking b =>
    obtain ⟨-, err', he, hn⟩ := h
    cases he
    rw [hn] at hr
    cases hr
  | hit r =>
    rcases h with ⟨-, h⟩ | ⟨-, k, -, h⟩
    · cases h
      cases hr
    · obtain ⟨reason, rfl⟩ := replay_error h.symm
      cases hr
  | missing b => trivial
  | read b r =>
    obtain ⟨-, h⟩ := h
    cases h
    cases hr
  | judged b r t =>
    rcases h with ⟨-, k, -, h⟩ | ⟨-, -, k, -, h⟩ | ⟨ho, -⟩
    · cases h
      cases hr
    · obtain ⟨reason, rfl⟩ := replay_error h.symm
      cases hr
    · exact ho
  | ended claim result =>
    cases result with
    | ok a =>
      obtain ⟨err', -, h⟩ := h
      cases h
      cases hr
    | error f =>
      obtain ⟨-, h⟩ := h
      cases h
      cases hr
  | stored claim a r => cases h
  | dropped claim f =>
    cases h
    cases hr
  | apart => exact absurd rfl hs
  | denied b => exact h.elim
  | holding claim => exact h.elim
  | running claim => exact h.elim
  | clearing => exact h.elim

/-- How an attempt ends that began with `again`. -/
def Call.attemptEnds (c : Call κ α) (enc : Encoding α) (again : Bool) (s : Phase α)
    (p : Except Error α × Bool) : Prop :=
  c.concludes enc s p.1 ∧ s ≠ .apart ∧ (s.givesUp → s.again = again ∧ p.2 = false)

/-! ### Attempts -/

/-- Every found record ends a call or is judged too late. -/
theorem follows_settleWith {b : Bool} {k : Key} {r : Record} {n : Nat} (hk : c.key? = some k)
    (ha : c.accepts r) :
    (c.engine.settleWith enc ⟨k, c.engine.functionName⟩ n k r).Follows c.protocol
      (fun s result => c.concludes enc s result ∧ ∃ t, s = .judged b r t) (.read b r) := by
  rw [settleWith]
  refine follows_now fun t => ?_
  show Follows _ _ _ (Phase.judged b r t)
  cases hs : r.statusAt (secondsOf t) with
  | expired =>
    have ho : Phase.isOver r t := by
      unfold Record.statusAt at hs
      split at hs
      · rename_i he
        exact .inl (by rw [Record.isReplaceable, he, Bool.true_or])
      · exact .inr hs
    exact ⟨.inr (.inr ⟨ho, _, rfl⟩), t, rfl⟩
  | inProgress =>
    have hst : r.status = .inProgress := by
      unfold Record.statusAt at hs
      split at hs
      · cases hs
      · exact hs
    refine follows_now fun t' => ?_
    show Follows _ _ _ (Phase.judged b r t')
    by_cases hd : r.isOverdue t' = true
    · rw [if_pos hd]
      have ho : Phase.isOver r t' := .inl (by simp [Record.isReplaceable, hst, hd])
      exact ⟨.inr (.inr ⟨ho, _, rfl⟩), t', rfl⟩
    · rw [if_neg hd]
      exact ⟨.inl ⟨hst, k, hk, rfl⟩, t', rfl⟩
  | completed =>
    have hst : r.status = .completed ∧ r.isExpired (secondsOf t) = false := by
      unfold Record.statusAt at hs
      split at hs
      · cases hs
      · rename_i he
        exact ⟨hs, by simpa using he⟩
    refine follows_keep (.inl ⟨b, t, rfl, hst.1, hst.2⟩) (follows_reached ?_)
    cases hp : c.engine.replay enc ⟨k, c.engine.functionName⟩ r with
    | ok a => exact follows_reached ⟨.inr (.inl ⟨hst.1, ha, k, hk, hp.symm⟩), t, rfl⟩
    | error err => exact ⟨.inr (.inl ⟨hst.1, ha, k, hk, hp.symm⟩), t, rfl⟩

theorem follows_resolveConflict {b : Bool} {k : Key} {n : Nat} (hk : c.key? = some k) :
    (c.engine.resolveConflict enc ⟨k, c.engine.functionName⟩ n k c.digest).Follows c.protocol
      (fun s result => c.concludes enc s result ∧ s ≠ .apart ∧ s.claim? = none ∧ s.again = b)
      (.denied b) := by
  rw [resolveConflict]
  refine ⟨⟨⟨b, rfl⟩, hk⟩, fun a ha => ?_⟩
  rcases ha with ⟨r, rfl⟩ | rfl
  · refine follows_checkPayload ?_
    show Follows _ _ _ (Phase.read b r)
    unfold PayloadCheck.check
    by_cases hacc : c.engine.check.accepts r c.digest = true
    · rw [if_pos hacc]
      refine (follows_settleWith hk hacc).mono ?_
      rintro s result ⟨hc, t, rfl⟩
      exact ⟨hc, by simp, rfl, rfl⟩
    · rw [if_neg hacc]
      exact ⟨⟨hacc, rfl⟩, by simp, rfl, rfl⟩
  · show Follows _ _ _ (Phase.missing b)
    exact ⟨⟨_, rfl⟩, by simp, rfl, rfl⟩

theorem follows_replayCached {b : Bool} {k : Key} {r : Record} {n : Nat} (hk : c.key? = some k) :
    (c.engine.replayCached enc ⟨k, c.engine.functionName⟩ n c.digest r).Follows c.protocol
      (fun s result => c.attemptEnds enc b s (result, false)) (.hit r) := by
  rw [replayCached]
  refine follows_checkPayload ?_
  unfold PayloadCheck.check
  by_cases hacc : c.engine.check.accepts r c.digest = true
  · rw [if_pos hacc]
    exact follows_reached (follows_reached ⟨.inr ⟨hacc, k, hk, rfl⟩, by simp, fun h => h.elim⟩)
  · rw [if_neg hacc]
    exact ⟨.inl ⟨hacc, rfl⟩, by simp, fun h => h.elim⟩

theorem follows_failWith {claim : Record} {f : Failure} {n : Nat} :
    (c.engine.failWith (α := α) n claim.key f).Follows c.protocol
      (fun s result => c.concludes enc s result ∧ s.claim? = some claim)
      (.ended claim (.error f)) := by
  rw [failWith]
  by_cases hb : c.engine.settings.rollsBack f = true
  · rw [if_pos hb, follows_bind, remove]
    refine ⟨.inl ⟨claim, f, rfl, rfl, hb⟩, fun a ha => ?_⟩
    subst ha
    show Follows _ _ _ (Phase.dropped claim f)
    exact follows_forget (.inl ⟨claim, f, rfl, rfl⟩) (follows_reached ⟨rfl, rfl⟩)
  · rw [if_neg hb]
    exact follows_reached ⟨⟨by simpa using hb, rfl⟩, rfl⟩

theorem follows_finishWith {claim : Record} {a : α} {left : Option Nat} {n : Nat}
    (ht : c.task = .run enc left) :
    (c.engine.finishWith enc ⟨claim.key, c.engine.functionName⟩ n claim a).Follows c.protocol
      (fun s result => c.concludes enc s result ∧ s.claim? = some claim)
      (.ended claim (.ok a)) := by
  rw [finishWith]
  cases hst : enc.store ⟨claim.key, c.engine.functionName⟩ a with
  | error err => exact ⟨⟨err, hst, rfl⟩, rfl⟩
  | ok data =>
    refine follows_expiry (fun _ => rfl) fun expiry => ?_
    refine ⟨⟨claim, a, rfl, enc, left, data, expiry, ht, hst, rfl⟩, fun answer ha => ?_⟩
    subst ha
    show Follows _ _ _ (Phase.stored claim a _)
    exact follows_keep (.inr ⟨claim, a, rfl⟩) (follows_reached ⟨rfl, rfl⟩)

theorem follows_callFunction {claim : Record} {left : Option Nat} {n : Nat}
    (ht : c.task = .run enc left) :
    (c.engine.callFunction enc ⟨claim.key, c.engine.functionName⟩ n claim).Follows c.protocol
      (fun s result => c.concludes enc s result ∧ s.claim? = some claim) (.holding claim) := by
  rw [callFunction]
  refine follows_reached ⟨.inl ⟨claim, rfl⟩, fun _ _ => ⟨.inl ⟨claim, rfl⟩, fun result _ => ?_⟩⟩
  cases result with
  | ok a => exact follows_finishWith ht
  | error f => exact follows_failWith

theorem follows_claim {b : Bool} {k : Key} {left left' : Option Nat} {n : Nat}
    (ht : c.task = .run enc left') (hk : c.key? = some k) :
    (c.engine.claim enc ⟨k, c.engine.functionName⟩ n k c.digest left false).Follows c.protocol
      (c.attemptEnds enc b) (.seeking b) := by
  rw [claim, follows_bind, claimFor]
  refine follows_now fun t => follows_expiry (fun _ => rfl) fun expiry => ?_
  refine follows_reached ⟨⟨⟨b, rfl⟩, k, expiry, _, hk, rfl⟩, fun a ha => ?_⟩
  obtain ⟨outcome, rfl⟩ := ha
  cases outcome with
  | created =>
    refine (follows_bind (c.engine.callFunction enc _ n _) _ _).mpr
      ((follows_callFunction ht).mono ?_)
    rintro s result ⟨hc, hcl⟩
    have hg : ¬ s.givesUp := fun hg => by rw [hg.claim?_eq_none] at hcl; cases hcl
    refine ⟨hc, ?_, fun h => absurd h hg⟩
    rintro rfl
    cases hcl
  | conflict =>
    refine (follows_bind (c.engine.resolveConflict enc _ n k _) _ _).mpr
      ((follows_resolveConflict hk).mono ?_)
    rintro s result ⟨hc, hs, -, hb⟩
    cases result with
    | ok a => exact ⟨hc, hs, fun _ => ⟨hb, rfl⟩⟩
    | error err => exact follows_reached ⟨hc, hs, fun _ => ⟨hb, rfl⟩⟩

/-- A key cannot be derived only for want of the part of the payload that is required. -/
theorem derive_eq_error {rule : KeyRule} {v : Json.Value} {err : Error}
    (h : rule.derive v = .error err) : err = .keyDerivation rule.selector.source := by
  unfold KeyRule.derive at h
  split at h
  · cases h
  · rename_i hm
    cases h
    simp only [KeyRule.material] at hm
    split at hm
    · cases hm
      rfl
    · cases hm

/-- A key that cannot be derived is no reason for another try. -/
theorem derive_error {rule : KeyRule} {v : Json.Value} {err : Error}
    (h : rule.derive v = .error err) : err.isRetryable = false := by
  rw [derive_eq_error h]
  rfl

theorem isHandler_derive {rule : KeyRule} {v : Json.Value} {err : Error}
    (h : rule.derive v = .error err) : err.isHandler = false := by
  rw [derive_eq_error h]
  rfl

theorem follows_attempt {b : Bool} {v : Json.Value} {left : Option Nat} {n : Nat}
    (ht : c.task = .run enc left) (hp : c.payload = .ok v) :
    (c.engine.attempt enc v left n false).Follows c.protocol (c.attemptEnds enc b)
      (.seeking b) := by
  rw [attempt]
  refine follows_deriveKey ?_
  cases hd : c.engine.rule.derive v with
  | error err =>
    have hk : c.key? = none := by rw [Call.key?_of_ok hp, hd]; rfl
    exact ⟨⟨hk, err, rfl, derive_error hd⟩, by simp, fun h => h.elim⟩
  | ok k =>
    have hk : c.key? = some k := by rw [Call.key?_of_ok hp, hd]; rfl
    have hdig : c.engine.check.compute v = c.digest := by rw [Call.digest, hp]
    have claimed : (c.engine.claim enc ⟨k, c.engine.functionName⟩ n k c.digest left false).Follows
        c.protocol (c.attemptEnds enc b) (.seeking b) := follows_claim ht hk
    refine follows_reached ?_
    rw [hdig, follows_bind, cached]
    split
    · refine ⟨⟨⟨b, rfl⟩, hk⟩, fun found _ => ?_⟩
      cases found with
      | none => exact claimed
      | some r =>
        refine (follows_bind (c.engine.replayCached enc _ n _ r) _ _).mpr ?_
        exact follows_replayCached hk
    · exact claimed

/-! ### Calls -/

theorem follows_attempts {v : Json.Value} {left : Option Nat} (ht : c.task = .run enc left)
    (hp : c.payload = .ok v) :
    ∀ (retries n : Nat) (b : Bool), (b = false → retries = c.engine.settings.maxRetries) →
      (c.engine.attempts enc v left retries n false).Follows c.protocol
        (fun s result => c.finishes s (.returned result)) (.seeking b) := by
  intro retries
  induction retries with
  | zero =>
    intro n b hb
    rw [attempts, follows_bind]
    refine (follows_attempt ht hp).mono ?_
    rintro s ⟨result, started⟩ ⟨hc, hs, hg⟩
    refine ⟨enc, left, ht, hc, fun reason hr _ ha => ?_⟩
    have hgives : s.givesUp := by
      subst hr
      exact hc.givesUp hs rfl
    exact (hb ((hg hgives).1 ▸ ha)).symm
  | succ retries ih =>
    intro n b hb
    rw [attempts, follows_bind]
    refine (follows_attempt ht hp).mono ?_
    rintro s ⟨result, started⟩ ⟨hc, hs, hg⟩
    cases result with
    | ok a => exact ⟨enc, left, ht, hc, fun reason hr => by cases hr⟩
    | error err =>
      by_cases hr : err.isRetryable = true
      · have hgives := hc.givesUp hs hr
        obtain ⟨-, rfl⟩ := hg hgives
        have hagain : s.after (α := α) (.note (.warning .retrying)) () = .seeking true := by
          cases s with
          | missing b => rfl
          | judged b r t => rfl
          | _ => exact hgives.elim
        simp only [if_pos hr]
        refine ⟨hgives, fun _ _ => ?_⟩
        show Follows _ _ _ (s.after (α := α) (.note (.warning .retrying)) ())
        rw [hagain]
        exact ih (n + 1) true (by simp)
      · simp only [if_neg hr]
        refine ⟨enc, left, ht, hc, fun reason he => ?_⟩
        cases he
        exact absurd rfl hr

/-- **Every call keeps to its phases and ends as they say.** -/
theorem talk_follows (c : Call κ α) : c.talk.Follows c.protocol c.finishes c.begins := by
  unfold Call.talk Call.begins
  cases ht : c.task with
  | run enc left =>
    dsimp only
    rw [follows_bind, run.eq_def]
    by_cases hdis : c.engine.settings.disabled = true
    · rw [if_pos hdis, if_pos hdis]
      refine ⟨.inr rfl, fun _ _ => ⟨.inr rfl, fun result _ => ?_⟩⟩
      show Follows _ _ _ Phase.apart
      cases result with
      | ok a => exact ⟨enc, left, ht, trivial, fun _ _ h => absurd rfl h⟩
      | error f => exact ⟨enc, left, ht, trivial, fun _ _ h => absurd rfl h⟩
    · rw [if_neg hdis, if_neg hdis]
      cases hp : c.payload with
      | error reason =>
        have hk : c.key? = none := by rw [Call.key?, hp]
        exact ⟨enc, left, ht, ⟨hk, _, rfl, rfl⟩, fun _ h => by cases h⟩
      | ok v => exact follows_attempts ht hp _ 0 false fun _ => rfl
  | delete =>
    dsimp only
    rw [follows_bind, delete, key.eq_def]
    cases hp : c.payload with
    | error reason => exact ⟨ht, rfl⟩
    | ok v =>
      refine follows_deriveKey (c := c) ?_
      cases hd : c.engine.rule.derive v with
      | error err => exact ⟨ht, rfl⟩
      | ok k =>
        have hk : c.key? = some k := by rw [Call.key?_of_ok hp, hd]; rfl
        refine (follows_bind (c.engine.remove k) _ _).mpr ?_
        rw [remove]
        refine ⟨.inr ⟨rfl, hk⟩, fun a ha => ?_⟩
        subst ha
        show Follows _ _ _ Phase.clearing
        exact follows_forget (.inr ⟨rfl, hk⟩) ⟨ht, rfl⟩

end AtMostOnce.Engine
