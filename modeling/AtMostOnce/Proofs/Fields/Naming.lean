/-
Names under which a claim keeps others out.

Any names are accepted, equal ones too.  A claim writes its status, then its deadline, then
its digest, and under one name the last of them is read.  So whether the record stands in the
way of the next claim depends on what is read under the three names (`second_claim_iff`):
with two equal ones there is a record that does not, and with three different ones every
record does, as long as the server has it.  The result is not written by a claim, so its
name does not matter.
-/
import AtMostOnce.Proofs.Fields.Takeover
import AtMostOnce.Proofs.Fields.Written

namespace AtMostOnce.Ledger.Fields

open FieldStore

variable {names : FieldNames} {now : Millis} {token : String} {m : FieldStore.Memory}
  {r r' : Record} {key : Key}

/-! ### Records that are claimed twice -/

/-- A record as a call claims it at a point in time: in progress, with an expiry that lies ahead and
no deadline that has passed. -/
structure Current (now : Millis) (r : Record) : Prop where
  status : r.status = .inProgress
  expiry : ∃ expiry, r.expiry = some expiry ∧ secondsOf now < expiry
  deadline : ∀ d, r.deadline = some d → now ≤ d ∧ Word.InRange d

/-- The point in time at which the server is told to drop the record, as it computes it, lies
ahead. -/
def EndsAhead (now : Millis) (r : Record) : Prop :=
  ∃ ttl, ttlAt now r = some ttl ∧ now < Memory.ahead now ttl

theorem Current.expires (h : Current now r) : r.expiry ≠ none := by
  obtain ⟨expiry, hexpiry, -⟩ := h.expiry
  exact hexpiry ▸ Option.some_ne_none expiry

theorem Current.isLive_iff (h : Current now r) :
    Memory.isLive now (entryOf names now r) = true ↔ EndsAhead now r := by
  obtain ⟨expiry, hexpiry, -⟩ := h.expiry
  unfold EndsAhead entryOf ttlAt Memory.isLive
  rw [hexpiry]
  simp

/-- What is read under a name of a claim: of what it has put there, the last. -/
theorem get?_orphanFields (names : FieldNames) (r : Record) (name : String) :
    Assoc.get? (Assoc.insertAll [] (orphanFields names r)) name =
      (if names.payloadHash = name then r.payloadHash else none).or
        ((if names.deadline = name then r.deadline.map Text.decimal else none).or
          (if names.status = name then some Status.inProgress.name else none)) := by
  unfold orphanFields claimFields
  cases r.deadline <;> cases r.payloadHash <;>
    simp only [Assoc.insertAll, List.foldl_cons, List.foldl_nil, List.nil_append, List.append_nil,
      List.cons_append, Assoc.get?_insert, Assoc.get?_nil, Option.map_none, Option.map_some,
      ite_self, Option.none_or] <;>
    grind

/-- What is read at a point in time stands in the way of a claim if it has a readable status, and is
not a claim whose deadline has passed. -/
theorem blocksAt_iff (hnow : Word.InRange now) (m : FieldStore.Memory) (name : String)
    {fields : Fields} :
    blocksAt names key now fields (m.ttl now name) = true ↔ Blocking names now fields := by
  unfold blocksAt recordAt
  cases hparse : Status.parse ((fields.get? names.status).getD "") with
  | error err =>
    refine iff_of_false (by simp) ?_
    rintro ⟨status, hread, -⟩
    cases hparse.symm.trans hread
  | ok status =>
    have hfilled : fields.isEmpty = false := by
      rw [Bool.eq_false_iff]
      intro hempty
      rw [List.isEmpty_iff.mp hempty] at hparse
      cases hparse
    have hexpiry : ∀ e, (if 0 ≤ m.ttl now name then
        some (Word.wrap (secondsOf now + m.ttl now name)) else none) = some e →
          secondsOf now ≤ e := by
      intro e he
      split at he
      · rename_i hleft
        cases he
        exact Memory.secondsOf_le_add_ttl hnow m name hleft
      · cases he
    have hiff : ∀ data hash,
        Record.isReplaceable ⟨key, status, _, deadline? names fields, data, hash⟩ now = false ↔
          Blocking names now fields := fun _ _ => isReplaceable_iff hexpiry hparse
    rw [hfilled, ← hiff (fields.get? names.data)
      (Record.nonEmptyHash (fields.get? names.payloadHash))]
    simp

/-- Whoever finds the lock free takes over. -/
theorem overwrite_free (h : m.Sound) (free : m.entry? now (lockName r.key) = none) :
    (alone now token (overwrite names r) m).1 = .ok .created := by
  rw [alone_overwrite]
  dsimp only
  rw [(lock_free h free token (lockSeconds now r)).1]

/-- **A second claim of a key is refused exactly if the record of the first one is still there, and
what is read under its names stands in the way.** -/
theorem second_claim_iff (h : m.Sound) (hnow : Word.InRange now) (hr : Current now r)
    (hkey : r'.key = r.key) (free : m.entry? now r.key.text = none)
    (unlocked : m.entry? now (lockName r.key) = none) (token' : String) :
    (alone now token (claim names r) m).1 = .ok .created ∧
      ((alone now token' (claim names r') (alone now token (claim names r) m).2).1 =
          .ok .conflict ↔
        EndsAhead now r ∧ Blocking names now (entryOf names now r).fields) := by
  obtain ⟨hgranted, hentry⟩ := claim_free names token h hr.expires free
  refine ⟨hgranted, ?_⟩
  have sound : Memory.Sound (alone now token (claim names r) m).2 := sound_alone h now token _
  generalize (alone now token (claim names r) m).2 = claimed at hentry sound ⊢
  have hheld : claimed.entry? now r'.key.text =
      (some (entryOf names now r)).filter (Memory.isLive now) := by
    rw [hkey, hentry, if_pos rfl]
  rw [Option.filter_some] at hheld
  have hunlocked : claimed.entry? now (lockName r'.key) = none := by
    rw [hkey, hentry, if_neg (Claims.lockName_ne r.key).symm]
    exact unlocked
  by_cases hlive : Memory.isLive now (entryOf names now r) = true
  · rw [if_pos hlive] at hheld
    have hstatus : (entryOf names now r).fields.get? names.status ≠ none := by
      rw [entryOf, get?_orphanFields, if_pos (rfl : names.status = names.status)]
      simp
    obtain ⟨m', h', hsame, hclaim⟩ := alone_claim_refused sound token' hheld hstatus
    rw [hclaim, and_iff_right (hr.isLive_iff.mp hlive), ← blocksAt_iff hnow claimed r'.key.text]
    split
    · rename_i hblocks
      exact iff_of_true rfl hblocks
    · rename_i hblocks
      rw [overwrite_free h' ((hsame _).trans hunlocked)]
      exact iff_of_false (by rintro ⟨⟩) hblocks
  · rw [if_neg hlive] at hheld
    obtain ⟨_, -, -, hclaim⟩ := alone_claim_fresh (r := r') sound names token' fun e he => by
      cases hheld.symm.trans he
    rw [hclaim]
    exact iff_of_false (by rintro ⟨⟩) fun hends => hlive (hr.isLive_iff.mpr hends.1)

/-! ### Equal names -/

/-- The names of what a claim writes. -/
def claimNames (names : FieldNames) : List String :=
  [names.status, names.deadline, names.payloadHash]

/-- Under different names a claim is read as it was written. -/
theorem Current.blocking (hr : Current now r) (hnames : (claimNames names).Nodup) :
    Blocking names now (entryOf names now r).fields := by
  obtain ⟨⟨hdeadline, hstatus⟩, hhash⟩ :
      (names.status ≠ names.deadline ∧ names.status ≠ names.payloadHash) ∧
        names.deadline ≠ names.payloadHash := by
    simpa [claimNames] using hnames
  refine ⟨.inProgress, ?_, ?_⟩
  · rw [entryOf, get?_orphanFields, if_neg hstatus.symm, if_neg hdeadline.symm, if_pos rfl]
    rfl
  · rintro ⟨-, d, hd, hpassed⟩
    rw [deadline?, entryOf, get?_orphanFields, if_neg hhash.symm, if_pos rfl, if_neg hdeadline,
      Option.none_or, Option.or_none] at hd
    obtain ⟨text, htext, hread⟩ := Option.bind_eq_some_iff.mp hd
    obtain ⟨d', hd', rfl⟩ := Option.map_eq_some_iff.mp htext
    obtain ⟨hahead, hrange⟩ := hr.deadline d' hd'
    rw [Word.ofSignedDigits?_decimal, if_pos hrange] at hread
    cases hread
    exact absurd hpassed (Int.not_lt.mpr hahead)

/-- A record that is claimed a second after the epoch, with a deadline and a digest as given. -/
def sample (deadline : Option Millis) (hash : Option String) : Record :=
  ⟨⟨"order"⟩, .inProgress, some 3600, deadline, none, hash⟩

/-- Two equal names leave a record that cannot be read, or seems to have lost its deadline. -/
theorem nodup_of_blocking
    (h : ∀ r, Current 1000 r → EndsAhead 1000 r →
      Blocking names 1000 (entryOf names 1000 r).fields) :
    (claimNames names).Nodup := by
  have sampled : ∀ deadline hash, (∀ d, deadline = some d → 1000 ≤ d ∧ Word.InRange d) →
      Blocking names 1000 (entryOf names 1000 (sample deadline hash)).fields :=
    fun deadline hash hd => h _ ⟨rfl, ⟨3600, rfl, by decide⟩, hd⟩ ⟨3599, rfl, by decide⟩
  have hstatus : names.status ≠ names.payloadHash := by
    intro heq
    -- the digest is read as the status
    obtain ⟨status, hparse, -⟩ := sampled none (some "7f3a") nofun
    rw [entryOf, get?_orphanFields, if_pos heq.symm] at hparse
    cases hparse
  have hdeadline : names.status ≠ names.deadline := by
    intro heq
    -- the deadline is read as the status
    obtain ⟨status, hparse, -⟩ := sampled (some 5000) none (by rintro d ⟨⟩; decide)
    rw [entryOf, get?_orphanFields, if_neg hstatus.symm, if_pos heq.symm] at hparse
    have hunread : Status.parse (Text.decimal 5000) = .error (.invalidStatus "5000") := by decide
    cases hunread.symm.trans hparse
  have hhash : names.deadline ≠ names.payloadHash := by
    intro heq
    -- the digest is read as a deadline that has passed
    obtain ⟨status, hparse, hnot⟩ := sampled none (some "0") nofun
    rw [entryOf, get?_orphanFields, if_neg hstatus.symm, if_neg hdeadline.symm,
      if_pos rfl] at hparse
    cases hparse
    refine hnot ⟨rfl, 0, ?_, by decide⟩
    rw [deadline?, entryOf, get?_orphanFields, if_pos heq.symm]
    rfl
  simpa [claimNames] using ⟨⟨hdeadline, hstatus⟩, hhash⟩

/-- **A claim keeps others out of its key as long as the server has its record, whatever the record,
exactly if the names that it writes are different.**  The key was vacant, nobody else is there, and
the clock stands still. -/
theorem second_claims_refused_iff (names : FieldNames) :
    (∀ now r r' token token', Word.InRange now → Current now r → r'.key = r.key →
      (alone now token (claim names r) .empty).1 = .ok .created ∧
        ((alone now token' (claim names r') (alone now token (claim names r) .empty).2).1 =
          .ok .conflict ↔ EndsAhead now r)) ↔ (claimNames names).Nodup := by
  have either : ∀ {now : Millis} {r r' : Record} (token token' : String), Word.InRange now →
      Current now r → r'.key = r.key →
      (alone now token (claim names r) .empty).1 = .ok .created ∧
        ((alone now token' (claim names r') (alone now token (claim names r) .empty).2).1 =
            .ok .conflict ↔
          EndsAhead now r ∧ Blocking names now (entryOf names now r).fields) :=
    fun token token' hnow hr hkey =>
      second_claim_iff Memory.sound_empty hnow hr hkey rfl rfl token'
  constructor
  · intro h
    refine nodup_of_blocking fun r hr hends => ?_
    have hnow : Word.InRange 1000 := by decide
    obtain ⟨-, hrefused⟩ := h 1000 r r "a" "b" hnow hr rfl
    exact ((either "a" "b" hnow hr rfl).2.mp (hrefused.mpr hends)).2
  · intro hnames now r r' token token' hnow hr hkey
    obtain ⟨hgranted, hrefused⟩ := either token token' hnow hr hkey
    exact ⟨hgranted, hrefused.trans (and_iff_left (hr.blocking hnames))⟩

end AtMostOnce.Ledger.Fields
