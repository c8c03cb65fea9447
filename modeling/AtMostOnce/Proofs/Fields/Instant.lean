/-
A claim over a server of fields while the clock stands still.

What is read does not go out of date by itself then, so a claim that lets a record be has
read one that stands in its way, and a claim that goes for the lock has read one that does
not.  `Bid` says how far a claim has come, `bidAllows` what it may ask there, and
`claim_follows_bid` that it ends with the key only where it has written its record.
-/
import AtMostOnce.Proofs.Fields.Save
import AtMostOnce.Proofs.Range

namespace AtMostOnce.Ledger.Fields

open Dialogue FieldStore

/-! ### What stands in the way of a claim -/

/-- The deadline among some fields. -/
def deadline? (names : FieldNames) (fields : Fields) : Option Millis :=
  (fields.get? names.deadline).bind fun s => Word.ofSignedDigits? s.toList

/-- The fields are those of a record that may not be replaced: they have a readable status, and
they are not in progress with a deadline that has passed. -/
def Blocking (names : FieldNames) (now : Millis) (fields : Fields) : Prop :=
  ∃ status, Status.parse ((fields.get? names.status).getD "") = .ok status ∧
    ¬ (status = .inProgress ∧ ∃ d, deadline? names fields = some d ∧ d < now)

theorem Blocking.status {names : FieldNames} {now : Millis} {fields : Fields}
    (h : Blocking names now fields) : fields.get? names.status ≠ none := by
  intro hnone
  obtain ⟨status, hparse, -⟩ := h
  rw [hnone] at hparse
  cases hparse

/-- The time to live of a record, at least a second. -/
def ttlAt (now : Millis) (r : Record) : Option Int :=
  r.expiry.map fun expiry => max 1 (Word.wrap (expiry - secondsOf now))

/-! ### Phases -/

/-- How far a claim has come. -/
inductive Bid where
  /-- Nothing was asked. -/
  | starting
  /-- The status field was claimed. -/
  | claimed
  /-- There was a status. -/
  | refused
  /-- Fields were read. -/
  | saw (fields : Fields)
  /-- Another call has the lock. -/
  | beaten
  /-- The lock was taken. -/
  | locked
  /-- The record was written. -/
  | won

/-- The phase to which an answer leads. -/
def Bid.after (s : Bid) : (q : Request) → q.Answer → Bid
  | .store (.claim _ _ _), .ok granted => if granted then claimed else refused
  | .store (.write _ _ _), .ok _ => won
  | .store (.read _), .ok (fields, _) => saw fields
  | .store (.lock _ _ _), .ok granted => if granted then locked else beaten
  | .store (.replace _ _ _), .ok _ => won
  | _, _ => s

/-- May a claim ask this in the phase? -/
def bidAllows (names : FieldNames) (now : Millis) (r : Record) (s : Bid) : Request → Prop
  | .now | .token => True
  | .store (.claim key field value) =>
    s = .starting ∧ key = r.key.text ∧ field = names.status ∧ value = Status.inProgress.name
  | .store (.write key fields ttl) =>
    s = .claimed ∧ key = r.key.text ∧ fields = claimFields names r ∧ ttl = ttlAt now r
  | .store (.read key) => s = .refused ∧ key = r.key.text
  | .store (.lock key _ seconds) =>
    (∃ fields, s = .saw fields ∧ ¬ Blocking names now fields) ∧ key = lockName r.key ∧
      seconds = min ((ttlAt now r).getD maxLockSeconds) maxLockSeconds
  | .store (.replace key fields ttl) =>
    s = .locked ∧ key = r.key.text ∧ fields = orphanFields names r ∧ ttl = ttlAt now r
  | .store (.delete _) => False

/-- Is this what a server that does not fail may answer at one point in time? -/
def answersAt (now : Millis) : (q : Request) → q.Answer → Prop
  | .now, t => t = now
  | .token, _ => True
  | .store (.read _), a =>
    ∃ fields ttl, a = .ok (fields, ttl) ∧
      (0 ≤ ttl → secondsOf now ≤ Word.wrap (secondsOf now + ttl))
  | .store _, a => ∃ v, a = .ok v

/-- May a claim end so? -/
def bidEnds (names : FieldNames) (now : Millis) : Bid → Except Error Outcome → Prop
  | .won, result => result = .ok .created
  | .saw fields, result => Blocking names now fields ∧ result = .ok .conflict
  | .beaten, result => result = .ok .conflict
  | _, _ => False

/-- What a claim keeps to while the clock stands still. -/
@[reducible] def bidProtocol (names : FieldNames) (now : Millis) (r : Record) :
    Protocol Request Request.Answer Bid :=
  ⟨bidAllows names now r, answersAt now, Bid.after⟩

/-! ### Following the protocol -/

section

variable {β : Type} {names : FieldNames} {now : Millis} {r : Record} {ends : Bid → β → Prop}
  {s : Bid}

theorem bid_ttlOf {f : Option Int → Action β}
    (h : (f (ttlAt now r)).Follows (bidProtocol names now r) ends s) :
    (ttlOf r >>= f).Follows (bidProtocol names now r) ends s := by
  unfold ttlOf ttlM
  unfold ttlAt at h
  cases hexpiry : r.expiry with
  | none =>
    rw [hexpiry] at h
    exact h
  | some expiry =>
    rw [hexpiry] at h
    refine ⟨trivial, fun t ht => ?_⟩
    obtain rfl : t = now := ht
    exact h

/-- A record may be replaced at the time it was read exactly if its fields do not block. -/
theorem isReplaceable_iff {key : Key} {fields : Fields} {status : Status}
    {expiry : Option Seconds} {data hash : Option String}
    (hexpiry : ∀ e, expiry = some e → secondsOf now ≤ e)
    (hparse : Status.parse ((fields.get? names.status).getD "") = .ok status) :
    Record.isReplaceable ⟨key, status, expiry, deadline? names fields, data, hash⟩ now = false ↔
      Blocking names now fields := by
  have hunexpired : Record.isExpired ⟨key, status, expiry, deadline? names fields, data, hash⟩
      (secondsOf now) = false := by
    unfold Record.isExpired
    cases expiry with
    | none => rfl
    | some e => simpa using hexpiry e rfl
  have hoverdue : Record.isOverdue ⟨key, status, expiry, deadline? names fields, data, hash⟩ now =
      true ↔ ∃ d, deadline? names fields = some d ∧ d < now := by
    unfold Record.isOverdue
    cases deadline? names fields <;> simp
  unfold Blocking Record.isReplaceable
  rw [hunexpired, hparse, Bool.false_or, Bool.and_eq_false_iff]
  constructor
  · intro h
    refine ⟨status, rfl, ?_⟩
    rintro ⟨rfl, hpassed⟩
    rw [hoverdue.mpr hpassed] at h
    simp at h
  · rintro ⟨status', hstatus, hnot⟩
    cases hstatus
    by_cases hst : status = .inProgress
    · right
      rw [← Bool.not_eq_true, hoverdue]
      exact fun hpassed => hnot ⟨hst, hpassed⟩
    · left
      simpa using hst

theorem bid_blocks {key : Key} {fields : Fields} {ttl : Int}
    (hshown : 0 ≤ ttl → secondsOf now ≤ Word.wrap (secondsOf now + ttl)) :
    (blocks names key fields ttl).Follows (bidProtocol names now r)
      (fun s b => s = .saw fields ∧ (b = true ↔ Blocking names now fields)) (.saw fields) := by
  unfold blocks blocksM
  by_cases hempty : fields.isEmpty = true
  · rw [if_pos hempty]
    refine ⟨rfl, (absurd · Bool.false_ne_true), fun h => absurd ?_ h.status⟩
    rw [List.isEmpty_iff.mp hempty]
    rfl
  · rw [if_neg hempty, follows_bind, recordM]
    cases hst : Status.parse ((fields.get? names.status).getD "") with
    | error err =>
      refine ⟨rfl, (absurd · Bool.false_ne_true), ?_⟩
      rintro ⟨status, hparse, -⟩
      rw [hst] at hparse
      cases hparse
    | ok status =>
      have judged : ∀ expiry : Option Seconds, (∀ e, expiry = some e → secondsOf now ≤ e) →
          ((!Record.isReplaceable ⟨key, status, expiry, deadline? names fields,
            fields.get? names.data, Record.nonEmptyHash (fields.get? names.payloadHash)⟩ now) =
            true ↔ Blocking names now fields) := by
        intro expiry hexpiry
        rw [Bool.not_eq_true', isReplaceable_iff hexpiry hst]
      by_cases httl : 0 ≤ ttl
      · simp only [if_pos httl]
        refine ⟨trivial, fun t ht => ⟨trivial, fun t' ht' => ?_⟩⟩
        obtain rfl : t = now := ht
        obtain rfl : t' = t := ht'
        refine ⟨rfl, judged _ ?_⟩
        rintro e he
        cases he
        exact hshown httl
      · simp only [if_neg httl]
        refine ⟨trivial, fun t ht => ?_⟩
        obtain rfl : t = now := ht
        exact ⟨rfl, judged none fun e he => absurd he.symm (Option.some_ne_none e)⟩

theorem bid_overwrite {fields : Fields} (hopen : ¬ Blocking names now fields) :
    (overwrite names r).Follows (bidProtocol names now r) (bidEnds names now) (.saw fields) := by
  unfold overwrite overwriteM
  refine bid_ttlOf ⟨trivial, fun token _ =>
    ⟨⟨⟨fields, rfl, hopen⟩, rfl, rfl⟩, fun locked ha => ?_⟩⟩
  obtain ⟨granted, rfl⟩ := ha
  cases granted with
  | false => exact rfl
  | true =>
    refine ⟨⟨rfl, rfl, rfl, rfl⟩, fun replaced ha => ?_⟩
    obtain ⟨-, rfl⟩ := ha
    exact rfl

/-- **While the clock stands still a claim keeps to its phases, and ends with the key only where it
has written its record, and without it only where a record or another claim was in its way.** -/
theorem claim_follows_bid (names : FieldNames) (now : Millis) (r : Record) :
    (claim names r).Follows (bidProtocol names now r) (bidEnds names now) .starting := by
  unfold claim claimM
  refine ⟨⟨rfl, rfl, rfl, rfl⟩, fun claimed ha => ?_⟩
  obtain ⟨granted, rfl⟩ := ha
  cases granted with
  | true =>
    refine bid_ttlOf ⟨⟨rfl, rfl, rfl, rfl⟩, fun written ha => ?_⟩
    obtain ⟨-, rfl⟩ := ha
    exact rfl
  | false =>
    refine ⟨⟨rfl, rfl⟩, fun read ha => ?_⟩
    obtain ⟨fields, ttl, rfl, hshown⟩ := ha
    refine (follows_bind (blocks names r.key fields ttl) _ _).mpr ((bid_blocks hshown).mono ?_)
    rintro s b ⟨rfl, hb⟩
    cases b with
    | true => exact ⟨hb.mp rfl, rfl⟩
    | false => exact bid_overwrite fun h => nomatch hb.mpr h

end

end AtMostOnce.Ledger.Fields
