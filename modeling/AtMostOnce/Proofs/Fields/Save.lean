/-
How far a claim over a server of fields has come.

A claim takes its key in one of two ways: by claiming the status field, or by replacing
what it has read and found to be an orphan.  `SavePhase` keeps what was read and the
times that were asked for since, and `Orphaned` is what they must show for the claim to
go on.  Nothing is assumed of the answers.
-/
import AtMostOnce.Ledger.Fields
import AtMostOnce.Proofs.Protocol

namespace AtMostOnce.Ledger.Fields

open Dialogue FieldStore

/-- How far a claim has come. -/
inductive SavePhase where
  /-- Nothing was asked. -/
  | starting
  /-- The status field was claimed. -/
  | claimed
  /-- There was a status. -/
  | refused
  /-- What was read, and the times that were asked for since. -/
  | seen (fields : Fields) (ttl : Int) (times : List Millis)
  /-- The lock was taken. -/
  | locked (fields : Fields) (ttl : Int) (times : List Millis)
  /-- The record was written. -/
  | taken
  /-- The server has failed. -/
  | broken

namespace SavePhase

/-- The phase to which an answer leads. -/
def after (s : SavePhase) : (q : Request) → q.Answer → SavePhase
  | .now, t =>
    match s with
    | seen fields ttl times => seen fields ttl (t :: times)
    | s => s
  | .token, _ => s
  | .store (.claim _ _ _), a =>
    match s, a with
    | starting, .ok true => claimed
    | starting, .ok false => refused
    | starting, .error _ => broken
    | s, _ => s
  | .store (.write _ _ _), a =>
    match s, a with
    | claimed, .ok _ => taken
    | claimed, .error _ => broken
    | s, _ => s
  | .store (.read _), a =>
    match s, a with
    | refused, .ok (fields, ttl) => seen fields ttl []
    | refused, .error _ => broken
    | s, _ => s
  | .store (.lock _ _ _), a =>
    match s, a with
    | seen fields ttl times, .ok true => locked fields ttl times
    | s, _ => s
  | .store (.replace _ _ _), a =>
    match s, a with
    | locked _ _ _, .ok _ => taken
    | locked _ _ _, .error _ => broken
    | s, _ => s
  | .store (.delete _), _ => s

/-- The ways from a phase to the next one. -/
inductive Move : SavePhase → (q : Request) → q.Answer → SavePhase → Prop
  | stays (s q a) : Move s q a s
  | claims (key field value) : Move starting (.store (.claim key field value)) (.ok true) claimed
  | meets (key field value) : Move starting (.store (.claim key field value)) (.ok false) refused
  | writes (key fields ttl) : Move claimed (.store (.write key fields ttl)) (.ok ()) taken
  | reads (key fields ttl) :
    Move refused (.store (.read key)) (.ok (fields, ttl)) (seen fields ttl [])
  | asks (fields ttl times t) : Move (seen fields ttl times) .now t (seen fields ttl (t :: times))
  | locks (fields ttl times key token lifetime) :
    Move (seen fields ttl times) (.store (.lock key token lifetime)) (.ok true)
      (locked fields ttl times)
  | replaces (fields ttl times key fields' ttl') :
    Move (locked fields ttl times) (.store (.replace key fields' ttl')) (.ok ()) taken
  | breaks (s q a) : Move s q a broken

/-- What was read and the times that were asked for since, if anything was read. -/
def look? : SavePhase → Option (Fields × Int × List Millis)
  | seen fields ttl times | locked fields ttl times => some (fields, ttl, times)
  | _ => none

theorem seen_ne_taken {fields : Fields} {ttl : Int} {times : List Millis} :
    seen fields ttl times ≠ taken := nofun

theorem after_move (s : SavePhase) (q : Request) (a : q.Answer) : Move s q a (s.after q a) := by
  unfold after
  split <;> (try split) <;> constructor

end SavePhase

/-! ### The fields of claims and completions -/

structure Distinct (names : FieldNames) : Prop where
  status_deadline : names.status ≠ names.deadline
  status_payloadHash : names.status ≠ names.payloadHash
  deadline_payloadHash : names.deadline ≠ names.payloadHash
  data_others : names.data ≠ names.status ∧ names.data ≠ names.deadline ∧
    names.data ≠ names.payloadHash

/-- The fields of an in-progress record, its status among them. -/
def orphanFields (names : FieldNames) (r : Record) : Fields :=
  (names.status, Status.inProgress.name) :: claimFields names r

section

variable {names : FieldNames} (h : Distinct names) (r : Record) (fields : Fields)

include h

theorem status_insertAll :
    Assoc.get? (fields.insertAll (claimFields names r)) names.status =
      fields.get? names.status := by
  refine Assoc.get?_insertAll_of_notMem _ _ ?_
  unfold claimFields
  cases r.deadline <;> cases r.payloadHash <;>
    simp [h.status_deadline, h.status_payloadHash]

/-- A claim's fields hold the deadline of its record, if it has one. -/
theorem deadline_insertAll :
    Assoc.get? (fields.insertAll (claimFields names r)) names.deadline =
      (r.deadline.map Text.decimal).or (fields.get? names.deadline) := by
  have hne := Ne.symm h.deadline_payloadHash
  unfold claimFields
  cases r.deadline <;> cases r.payloadHash <;>
    simp [Assoc.insertAll, Assoc.get?_insert, hne]

theorem status_orphanFields :
    Assoc.get? (Assoc.insertAll [] (orphanFields names r)) names.status =
      some Status.inProgress.name := by
  show Assoc.get? (Assoc.insertAll (Assoc.insert [] names.status Status.inProgress.name)
    (claimFields names r)) names.status = _
  rw [status_insertAll h, Assoc.get?_insert, if_pos rfl]

theorem deadline_orphanFields :
    Assoc.get? (Assoc.insertAll [] (orphanFields names r)) names.deadline =
      r.deadline.map Text.decimal := by
  show Assoc.get? (Assoc.insertAll (Assoc.insert [] names.status Status.inProgress.name)
    (claimFields names r)) names.deadline = _
  rw [deadline_insertAll h, Assoc.get?_insert, if_neg h.status_deadline, Assoc.get?_nil,
    Option.or_none]

theorem data_insertAll :
    Assoc.get? (fields.insertAll (claimFields names r)) names.data = fields.get? names.data := by
  refine Assoc.get?_insertAll_of_notMem _ _ ?_
  obtain ⟨-, hdeadline, hhash⟩ := h.data_others
  unfold claimFields
  cases r.deadline <;> cases r.payloadHash <;> simp [hdeadline, hhash]

theorem data_orphanFields :
    Assoc.get? (Assoc.insertAll [] (orphanFields names r)) names.data = none := by
  show Assoc.get? (Assoc.insertAll (Assoc.insert [] names.status Status.inProgress.name)
    (claimFields names r)) names.data = _
  rw [data_insertAll h, Assoc.get?_insert, if_neg h.data_others.1.symm, Assoc.get?_nil]

theorem payloadHash_orphanFields :
    Assoc.get? (Assoc.insertAll [] (orphanFields names r)) names.payloadHash = r.payloadHash := by
  have h1 := h.status_payloadHash
  have h2 := h.deadline_payloadHash
  unfold orphanFields claimFields
  cases r.deadline <;> cases r.payloadHash <;> simp [Assoc.insertAll, Assoc.get?_insert, h1, h2]

/-- What a completion leaves of the fields that were there. -/
theorem fields_completed :
    Assoc.get? (fields.insertAll (completedFields names r)) names.status =
        some Status.completed.name ∧
      Assoc.get? (fields.insertAll (completedFields names r)) names.data =
        some (r.data.getD "") ∧
      Assoc.get? (fields.insertAll (completedFields names r)) names.payloadHash =
        r.payloadHash.or (fields.get? names.payloadHash) := by
  obtain ⟨h1, -, h3⟩ := h.data_others
  have h2 := h.status_payloadHash
  unfold completedFields
  cases r.payloadHash <;>
    simp [Assoc.insertAll, Assoc.get?_insert, h1, h2, h2.symm, h3, h3.symm]

/-- A completion leaves the deadline that was there. -/
theorem deadline_completed :
    Assoc.get? (fields.insertAll (completedFields names r)) names.deadline =
      fields.get? names.deadline := by
  refine Assoc.get?_insertAll_of_notMem _ _ ?_
  have h1 := h.status_deadline.symm
  have h2 := h.data_others.2.1.symm
  have h3 := h.deadline_payloadHash
  unfold completedFields
  cases r.payloadHash <;> simp [h1, h2, h3]

theorem payloadHash_completedFields :
    Assoc.get? (Assoc.insertAll [] (completedFields names r)) names.payloadHash =
      r.payloadHash :=
  (fields_completed h r []).2.2.trans Option.or_none

end

/-- Do fields and a time to live stand for no record, or for one that could be replaced by some
time that was asked for? -/
def Orphaned (names : FieldNames) (fields : Fields) (ttl : Int) (times : List Millis) : Prop :=
  fields.isEmpty = true ∨
    (∃ err, Status.parse ((fields.get? names.status).getD "") = .error err) ∨
    (0 ≤ ttl ∧ ∃ t ∈ times, ∃ t' ∈ times, Word.wrap (secondsOf t + ttl) < secondsOf t') ∨
    ∃ text d, ∃ t ∈ times, fields.get? names.deadline = some text ∧
      Word.ofSignedDigits? text.toList = some d ∧ d < t

/-- May a claim ask this in the phase? -/
def allows (names : FieldNames) (r : Record) (s : SavePhase) : Request → Prop
  | .now => s ≠ .taken
  | .token => s ≠ .taken
  | .store (.claim key field value) =>
    s = .starting ∧ key = r.key.text ∧ field = names.status ∧ value = Status.inProgress.name
  | .store (.write key fields _) => s = .claimed ∧ key = r.key.text ∧ fields = claimFields names r
  | .store (.read key) => s = .refused ∧ key = r.key.text
  | .store (.lock key _ _) =>
    (∃ fields ttl times, s = .seen fields ttl times) ∧ key = lockName r.key
  | .store (.replace key fields _) =>
    (∃ fields ttl times, s = .locked fields ttl times ∧ Orphaned names fields ttl times) ∧
      key = r.key.text ∧ fields = orphanFields names r
  | .store (.delete _) => False

/-- What a claim keeps to. -/
@[reducible] def protocol (names : FieldNames) (r : Record) :
    Protocol Request Request.Answer SavePhase :=
  ⟨allows names r, fun _ _ => True, SavePhase.after⟩

/-- May a claim end so? -/
def finishes (s : SavePhase) (result : Except Error Outcome) : Prop :=
  result = .ok .created ↔ s = .taken

variable {β : Type} {names : FieldNames} {r : Record} {ends : SavePhase → β → Prop}

theorem Orphaned.cons {fields : Fields} {ttl : Int} {times : List Millis}
    (h : Orphaned names fields ttl times) (t : Millis) :
    Orphaned names fields ttl (t :: times) := by
  rcases h with h | h | ⟨httl, t1, h1, t2, h2, h⟩ | ⟨text, d, t1, h1, h⟩
  · exact .inl h
  · exact .inr (.inl h)
  · exact .inr (.inr (.inl ⟨httl, t1, List.mem_cons_of_mem _ h1, t2, List.mem_cons_of_mem _ h2, h⟩))
  · exact .inr (.inr (.inr ⟨text, d, t1, List.mem_cons_of_mem _ h1, h⟩))

/-- Once the record is written nothing may be asked. -/
theorem not_allows_taken (names : FieldNames) (r : Record) (q : Request) :
    ¬ allows names r .taken q := by
  intro h
  cases q with
  | now => exact h rfl
  | token => exact h rfl
  | store op =>
    cases op with
    | claim key field value => cases h.1
    | write key fields ttl => cases h.1
    | read key => cases h.1
    | lock key token ttl =>
      obtain ⟨⟨_, _, _, hs⟩, -⟩ := h
      cases hs
    | replace key fields ttl =>
      obtain ⟨⟨_, _, _, hs, -⟩, -⟩ := h
      cases hs
    | delete key => exact h.elim

/-! ### Following the protocol -/

/-- Working out a time to live may ask for the time. -/
theorem follows_ttlOf {s : SavePhase} {f : Option Int → Action β} (hs : s ≠ .taken)
    (h : ∀ s' ttl, (s' = s ∨ ∃ t, s' = s.after .now t) →
      (f ttl).Follows (protocol names r) ends s') :
    (ttlOf r >>= f).Follows (protocol names r) ends s := by
  unfold ttlOf ttlM
  cases r.expiry with
  | none => exact h s none (.inl rfl)
  | some expiry => exact ⟨hs, fun t _ => h _ _ (.inr ⟨t, rfl⟩)⟩

/-- A record that could be replaced was an orphan, if its expiry came from the time to live. -/
theorem orphaned_of_isReplaceable {fields : Fields} {ttl : Int} {times : List Millis} {t : Millis}
    {key : Key} {status : Status} {expiry : Option Seconds} {data hash : Option String}
    (hexpiry : ∀ e, expiry = some e → 0 ≤ ttl ∧ ∃ t ∈ times, e = Word.wrap (secondsOf t + ttl))
    (h : Record.isReplaceable ⟨key, status, expiry,
      (fields.get? names.deadline).bind fun s => Word.ofSignedDigits? s.toList, data, hash⟩ t =
        true) :
    Orphaned names fields ttl (t :: times) := by
  unfold Record.isReplaceable at h
  rcases Bool.or_eq_true_iff.mp h with h | h
  · unfold Record.isExpired at h
    cases expiry with
    | none => cases h
    | some e =>
      obtain ⟨httl, t0, ht0, rfl⟩ := hexpiry e rfl
      have hlt : Word.wrap (secondsOf t0 + ttl) < secondsOf t := by simpa using h
      exact .inr (.inr (.inl ⟨httl, t0, List.mem_cons_of_mem _ ht0, t, List.mem_cons_self, hlt⟩))
  · have hover := (Bool.and_eq_true_iff.mp h).2
    unfold Record.isOverdue at hover
    dsimp only at hover
    split at hover
    · rename_i d hd
      obtain ⟨text, htext, hread⟩ := Option.bind_eq_some_iff.mp hd
      have hlt : d < t := by simpa using hover
      exact .inr (.inr (.inr ⟨text, d, t, List.mem_cons_self, htext, hread, hlt⟩))
    · cases hover

/-- A record that is read as blocking nothing was an orphan. -/
theorem follows_blocks {key : Key} {fields : Fields} {ttl : Int} :
    (blocks names key fields ttl).Follows (protocol names r)
      (fun s b => ∃ times, s = .seen fields ttl times ∧
        (b = false → Orphaned names fields ttl times))
      (.seen fields ttl []) := by
  unfold blocks blocksM
  by_cases hempty : fields.isEmpty = true
  · rw [if_pos hempty]
    exact ⟨[], rfl, fun _ => .inl hempty⟩
  · rw [if_neg hempty, follows_bind, recordM]
    cases hst : Status.parse ((fields.get? names.status).getD "") with
    | error err => exact ⟨[], rfl, fun _ => .inr (.inl ⟨err, hst⟩)⟩
    | ok status =>
      by_cases httl : 0 ≤ ttl
      · simp only [if_pos httl]
        refine ⟨SavePhase.seen_ne_taken, fun t0 _ =>
          ⟨SavePhase.seen_ne_taken, fun t _ => ⟨[t, t0], rfl, fun hb => ?_⟩⟩⟩
        refine orphaned_of_isReplaceable ?_ (by simpa using hb)
        rintro e he
        cases he
        exact ⟨httl, t0, List.mem_cons_self, rfl⟩
      · simp only [if_neg httl]
        refine ⟨SavePhase.seen_ne_taken, fun t _ => ⟨[t], rfl, fun hb => ?_⟩⟩
        refine orphaned_of_isReplaceable ?_ (by simpa using hb)
        rintro e he
        cases he

theorem follows_overwrite {fields : Fields} {ttl : Int} {times : List Millis}
    (h : Orphaned names fields ttl times) :
    (overwrite names r).Follows (protocol names r) finishes (.seen fields ttl times) := by
  unfold overwrite overwriteM
  refine follows_ttlOf SavePhase.seen_ne_taken fun s' lifetime hs => ?_
  obtain ⟨times', rfl, h'⟩ : ∃ times', s' = .seen fields ttl times' ∧
      Orphaned names fields ttl times' := by
    rcases hs with rfl | ⟨t, rfl⟩
    · exact ⟨times, rfl, h⟩
    · exact ⟨t :: times, rfl, h.cons t⟩
  refine ⟨SavePhase.seen_ne_taken, fun token _ =>
    ⟨⟨⟨fields, ttl, times', rfl⟩, rfl⟩, fun locked _ => ?_⟩⟩
  cases locked with
  | error e => exact ⟨nofun, nofun⟩
  | ok granted =>
    cases granted with
    | false => exact ⟨nofun, nofun⟩
    | true =>
      refine ⟨⟨⟨fields, ttl, times', rfl, h'⟩, rfl, rfl⟩, fun replaced _ => ?_⟩
      cases replaced with
      | error e => exact ⟨nofun, nofun⟩
      | ok _ => exact ⟨fun _ => rfl, fun _ => rfl⟩

/-- **A claim keeps to its phases, and is granted where it has taken its key.** -/
theorem claim_follows (names : FieldNames) (r : Record) :
    (claim names r).Follows (protocol names r) finishes .starting := by
  unfold claim claimM
  refine ⟨⟨rfl, rfl, rfl, rfl⟩, fun claimed _ => ?_⟩
  cases claimed with
  | error e => exact ⟨nofun, nofun⟩
  | ok granted =>
    cases granted with
    | true =>
      refine follows_ttlOf nofun fun s' lifetime hs => ?_
      obtain rfl : s' = .claimed := by
        rcases hs with rfl | ⟨t, rfl⟩ <;> rfl
      refine ⟨⟨rfl, rfl, rfl⟩, fun written _ => ?_⟩
      cases written with
      | error e => exact ⟨nofun, nofun⟩
      | ok _ => exact ⟨fun _ => rfl, fun _ => rfl⟩
    | false =>
      refine ⟨⟨rfl, rfl⟩, fun read _ => ?_⟩
      cases read with
      | error e => exact ⟨nofun, nofun⟩
      | ok shown =>
        obtain ⟨fields, ttl⟩ := shown
        refine (follows_bind (blocks names r.key fields ttl) _ _).mpr (follows_blocks.mono ?_)
        rintro s b ⟨times, rfl, horphan⟩
        cases b with
        | true => exact ⟨nofun, nofun⟩
        | false => exact follows_overwrite (horphan rfl)

end AtMostOnce.Ledger.Fields
