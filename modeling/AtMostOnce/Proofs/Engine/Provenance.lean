/-
What is replayed was returned for the same payload.

A run that ends without starting its function has decoded a record or has decoded
nothing.  The record came from its cache or from the ledger, both of which hold what
some call has completed, and a completed record carries two things of that call: the
text that was made of its function's result, and the digest of its payload, which went
into the claim and from there into the completed record.  Nothing else is ever written
into a record, so text and digest belong to one call.

Digests are never empty (`HashFunction.length_ofValue`), so where the payload is
checked, a record is accepted only if the digests are equal.
-/
import AtMostOnce.Proofs.Digest
import AtMostOnce.Proofs.Engine.Once

namespace AtMostOnce

/-! ### The check of payloads -/

namespace PayloadCheck

variable {c : PayloadCheck}

theorem compute_isEmpty (h : c.isEnabled = true) (v : Json.Value) :
    (c.compute v).isEmpty = false := by
  obtain ⟨s, hs⟩ := Option.isSome_iff_exists.mp h
  have hlength : (c.compute v).length = 2 * c.hash.size := by
    rw [compute, hs]
    exact c.hash.length_ofValue _
  rw [← Bool.not_eq_true, String.isEmpty_iff]
  intro hempty
  rw [hempty] at hlength
  cases hh : c.hash <;> simp [hh, HashFunction.size] at hlength

/-- Of two payloads that are checked, the one's record accepts the other one exactly if their
digests are the same. -/
theorem accepts_iff {r : Record} {v w : Json.Value} (h : c.isEnabled = true)
    (hr : r.payloadHash = Record.nonEmptyHash (some (c.compute v))) :
    c.accepts r (c.compute w) = true ↔ c.compute v = c.compute w := by
  have hstored : r.payloadHash.getD "" = c.compute v := by
    rw [hr, Record.nonEmptyHash, compute_isEmpty h]
    rfl
  rw [accepts, hstored, agrees, h, compute_isEmpty h, compute_isEmpty h]
  simp

end PayloadCheck

namespace Engine

/-- A record that a run may replay was made for a payload with the same digest. -/
theorem Call.replays.digest {κ α : Type} {c d : Call κ α} {enc : Encoding α} {w : Record}
    {result : Except Error α} (h : c.replays enc w result) (hd : d.key? ≠ none)
    (same : d.engine.check = c.engine.check)
    (hw : w.payloadHash = Record.nonEmptyHash (some d.digest))
    (enabled : c.engine.check.isEnabled = true) : d.digest = c.digest := by
  obtain ⟨haccepts, k, hk, -⟩ := h
  have hpayload : ∀ e : Call κ α, e.key? ≠ none → ∃ v, e.digest = e.engine.check.compute v := by
    intro e he
    unfold Call.key? at he
    unfold Call.digest
    cases hp : e.payload with
    | ok v => exact ⟨v, rfl⟩
    | error reason =>
      rw [hp] at he
      exact absurd rfl he
  obtain ⟨v, hv⟩ := hpayload d hd
  obtain ⟨v', hv'⟩ := hpayload c (by rw [hk]; nofun)
  rw [same] at hv
  unfold Call.accepts at haccepts
  rw [hv] at hw
  rw [hv'] at haccepts
  rw [hv, hv']
  exact (PayloadCheck.accepts_iff enabled hw).mp haccepts

namespace Interleaved

variable {κ α ι : Type} [DecidableEq κ] [DecidableEq ι] {calls : ι → Call κ α}
  (x : Interleaved calls)

/-- A call is given a record of a key, by its cache or by the ledger. -/
def Given (n : Nat) (i : ι) (k : Key) (r : Record) : Prop :=
  x.Says n i (.cached k) (some r) ∨ x.Says n i (.ledger (.find k)) (.ok r)

/-- Before the `n`-th event a call has started its function, the function has returned a value, and
what the call has made of the value is the text of the record with which it has completed the
key. -/
structure Produced (n : Nat) (j : ι) (w : Record) (text : String) : Prop where
  key : (calls j).key? = some w.key
  starts : ∃ l < n, x.Starts l j
  made : ∃ enc left a, (calls j).task = .run enc left ∧ (∃ l < n, x.Says l j .finish (.ok a)) ∧
    enc.store ⟨w.key, (calls j).engine.functionName⟩ a = .ok text
  completed : (∃ l < n, x.Changes l j (.completed w)) ∧ w.data = some text

variable {x} {m n : Nat} {i j : ι} {k : Key} {r w : Record}

/-! ### Where a completed record comes from -/

theorem finished_before {claim : Record} {a : α} (hn : n ≤ x.length)
    (h : x.phaseOf j n = .ended claim (.ok a)) : ∃ l < n, x.Says l j .finish (.ok a) := by
  obtain ⟨l, hl, q, a', s, s', hs, -, -, hmove, hnot, hp⟩ :=
    phaseOf_arises (p := fun s => s = .ended claim (.ok a)) nofun nofun nofun hn h
  subst hp
  cases hmove with
  | stays => exact absurd rfl hnot
  | finishes => exact ⟨l, hl, hs⟩

/-- A completed record holds what the function of one call has returned, and the digest of the
payload of that call. -/
theorem CompletedBefore.produced (h : x.CompletedBefore n w) :
    ∃ j text, x.Produced n j w text ∧
      w.payloadHash = Record.nonEmptyHash (some (calls j).digest) := by
  obtain ⟨m, hm, j, hc⟩ := h
  have hmx := Nat.le_of_lt hc.1
  obtain ⟨claim, a, hp, ⟨enc, left, text, expiry, ht, hstore, rfl⟩, -⟩ := hc.completed
  obtain ⟨l, hl, hgranted⟩ := claimed_of_claim? (r := claim) hmx (by rw [hp]; rfl)
  obtain ⟨-, -, -, k, expiry', deadline, hk, rfl⟩ := hgranted.claimed
  obtain ⟨l', hl', hstarts⟩ := starts_of_hasStarted hmx (by rw [hp]; trivial)
  obtain ⟨l'', hl'', hfinish⟩ := finished_before hmx hp
  refine ⟨j, text, ⟨hk, ⟨l', by omega, hstarts⟩, ⟨enc, left, a, ht, ⟨l'', by omega, hfinish⟩,
    hstore⟩, ⟨m, hm, hc⟩, rfl⟩, rfl⟩

theorem Given.completed (h : x.Given n i k r) (fresh : x.Fresh) (hs : r.status = .completed) :
    r.key = k ∧ x.CompletedBefore n r := by
  rcases h with h | h
  · exact cached_completed fresh h
  · obtain ⟨hk, hw⟩ := stored_origin fresh (Nat.le_of_lt h.1) (found h)
    exact ⟨hk, hw.completed hs⟩

/-! ### How a run ends that does not start its function -/

/-- A run that stands apart from the records starts its function. -/
theorem starts_of_isApart {b : Ending α} (happart : (calls i).isApart) (h : x.Ends i b) :
    ∃ n, x.Starts n i := by
  obtain ⟨⟨enc, left, ht⟩, hdis⟩ := happart
  obtain ⟨next, htalk⟩ : ∃ next, (calls i).talk = .ask .start next := by
    rw [Call.talk, ht]
    dsimp only
    rw [run.eq_def, if_pos hdis]
    exact ⟨_, rfl⟩
  obtain ⟨n, _, hs⟩ := h.asked htalk
  exact ⟨n, hs⟩

/-- It replays a completed record that it was given, or it ends with an error that is not about a
stored result. -/
theorem given_or_refused {result : Except Error α} (hk : (calls i).key? = some k)
    (fresh : x.Fresh) (ends : x.Ends i (.returned result)) (without : ∀ n, ¬ x.Starts n i) :
    (∃ n r enc left, x.Given n i k r ∧ r.status = .completed ∧ (calls i).task = .run enc left ∧
      (calls i).replays enc r result) ∨
    result = .error (.payloadValidation k) ∨ result = .error (.alreadyInProgress k) ∨
      ∃ reason, result = .error (.inconsistentState reason) := by
  obtain ⟨n, hn, enc, left, htask, hc, -⟩ := finished ends
  have unstarted : ¬ (x.phaseOf i n).hasStarted := by
    intro hst
    obtain ⟨m, -, hs⟩ := starts_of_hasStarted hn hst
    exact without m hs
  have hapart : ¬ (calls i).isApart := by
    intro happart
    obtain ⟨m, hs⟩ := starts_of_isApart happart ends
    exact without m hs
  have here : ∀ k', (calls i).key? = some k' → k' = k :=
    fun k' hk' => Option.some.inj (hk'.symm.trans hk)
  cases hp : x.phaseOf i n with
  | seeking b =>
    rw [hp] at hc
    obtain ⟨hnone, -⟩ := hc
    rw [hk] at hnone
    cases hnone
  | hit r =>
    rw [hp] at hc
    obtain ⟨m, -, k', hk', hs⟩ := hit_shown hn hp
    obtain rfl := here k' hk'
    obtain ⟨hkey, l, -, j, hdone⟩ := cached_completed fresh hs
    rcases hc with ⟨-, rfl⟩ | hr
    · exact .inr (.inl (by rw [hkey]))
    · exact .inl ⟨m, r, enc, left, .inl hs, hdone.completed_status, htask, hr⟩
  | missing b =>
    rw [hp] at hc
    exact .inr (.inr (.inr hc))
  | read b r =>
    rw [hp] at hc
    obtain ⟨m, hm, k', hk', hs⟩ := read_shown (r := r) hn (by rw [hp]; rfl)
    obtain rfl := here k' hk'
    obtain ⟨hkey, -⟩ := stored_origin fresh (Nat.le_of_lt hs.1) (found hs)
    rw [hc.2, hkey]
    exact .inr (.inl rfl)
  | judged b r t =>
    rw [hp] at hc
    obtain ⟨m, hm, k', hk', hs⟩ := read_shown (r := r) hn (by rw [hp]; rfl)
    obtain rfl := here k' hk'
    rcases hc with ⟨-, k'', hk'', rfl⟩ | ⟨hst, hr⟩ | ⟨-, hreason⟩
    · obtain rfl := here k'' hk''
      exact .inr (.inr (.inl rfl))
    · exact .inl ⟨m, r, enc, left, .inr hs, hst, htask, hr⟩
    · exact .inr (.inr (.inr hreason))
  | apart => exact absurd hp (not_apart hapart hn)
  | running r => rw [hp] at unstarted; exact absurd trivial unstarted
  | ended r a => rw [hp] at unstarted; exact absurd trivial unstarted
  | stored r a w => rw [hp] at unstarted; exact absurd trivial unstarted
  | dropped r f => rw [hp] at unstarted; exact absurd trivial unstarted
  | denied b => rw [hp] at hc; exact hc.elim
  | holding r => rw [hp] at hc; exact hc.elim
  | clearing => rw [hp] at hc; exact hc.elim

/-! ### Provenance -/

/-- **A run that ends without starting its function, and not with a refusal, decodes the record of
another call of its key: the text in it is what that call made of its function's result, and where
payloads are checked, both payloads have the same digest.** -/
theorem replay_provenance {check : PayloadCheck} (fresh : x.Fresh)
    (same : ∀ i enc left, (calls i).task = .run enc left → (calls i).key? = some k →
      (calls i).engine.check = check)
    {result : Except Error α} (hk : (calls i).key? = some k)
    (ends : x.Ends i (.returned result)) (without : ∀ n, ¬ x.Starts n i) :
    (result = .error (.payloadValidation k) ∨ result = .error (.alreadyInProgress k) ∨
      ∃ reason, result = .error (.inconsistentState reason)) ∨
    ∃ n w enc left j text, x.Given n i k w ∧ (calls i).task = .run enc left ∧
      result = (calls i).engine.replay enc ⟨k, (calls i).engine.functionName⟩ w ∧
      (calls j).key? = some k ∧ x.Produced n j w text ∧
      (check.isEnabled = true → (calls j).digest = (calls i).digest) := by
  rcases given_or_refused hk fresh ends without with
    ⟨n, w, enc, left, hgiven, hst, ht, hr⟩ | hrefused
  · obtain ⟨rfl, hdone⟩ := hgiven.completed fresh hst
    obtain ⟨j, text, hproduced, hdigest⟩ := hdone.produced
    obtain ⟨enc', left', -, ht', -, -⟩ := hproduced.made
    have hi := same i enc left ht hk
    have hj := same j enc' left' ht' hproduced.key
    refine .inr ⟨n, w, enc, left, j, text, hgiven, ht, ?_, hproduced.key, hproduced, ?_⟩
    · obtain ⟨-, k', hk', rfl⟩ := hr
      rw [Option.some.inj (hk'.symm.trans hk)]
    · intro enabled
      refine Call.replays.digest hr ?_ (hj.trans hi.symm) hdigest (by rw [hi]; exact enabled)
      rw [hproduced.key]
      nofun
  · exact .inl hrefused

/-! ### A receipt from the cache -/

/-- An engine with a cache, for which a reused key must come with the same payload. -/
def vetting : Engine := { charging 2 with check := ⟨some .identity, .blake2b128⟩, caches := true }

/-- Two calls for the order that share a cache. -/
def patrons (_ : Bool) : Call Unit String := ⟨vetting, (), .ok (.string "order"), .run plain none⟩

/-- The second call comes when the first one has ended. -/
def fromCache : Interleaved patrons :=
  (player patrons fun first => .ok (if first then "first" else "second")).play .roomy _
    (turns true 12 ++ turns false 4)

theorem fromCache_course :
    (∀ n < fromCache.length, starter? (fromCache.event n) ≠ some false) ∧
      (patrons false).key? = some order ∧
      fromCache.returned? false fromCache.length = some (.inr "first") := by
  decide +kernel

/-- The second call gets what the first one has returned. -/
theorem fromCache_provenance :
    ∃ n w enc left j text, fromCache.Given n false order w ∧
      (patrons false).task = .run enc left ∧
      (.ok "first" : Except Error String) = (patrons false).engine.replay enc ⟨order, "charge"⟩ w ∧
      (patrons j).key? = some order ∧ fromCache.Produced n j w text ∧
      (vetting.check.isEnabled = true → (patrons j).digest = (patrons false).digest) := by
  obtain ⟨hstarts, hkey, hends⟩ := fromCache_course
  have without : ∀ n, ¬ fromCache.Starts n false := by
    intro n hs
    obtain ⟨hn, he⟩ := starts_iff.mp hs
    exact hstarts n hn he
  have same : ∀ i enc left, (patrons i).task = .run enc left → (patrons i).key? = some order →
      (patrons i).engine.check = vetting.check := fun _ _ _ _ _ => rfl
  rcases replay_provenance ⟨rfl, fun _ => rfl⟩ same hkey
    (ends_of_returned? (Nat.le_refl _) hends) without with (hr | hr | ⟨_, hr⟩) | hgiven
  · cases hr
  · cases hr
  · cases hr
  · exact hgiven

end Interleaved

end Engine

end AtMostOnce
