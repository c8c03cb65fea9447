/-
A ledger of either kind, asked one request after the other.

The records are kept in memory, or on a server of fields that nobody else uses while a
request is carried out.  What the two have in common is said here in terms of what a
ledger answers: a removal leaves its key vacant, requests about other derived keys leave it
vacant, and the next claim is granted (`Vacant.isOpen`).  An orphan is as open to claims,
unless its lock is there (`open_of_orphan`).
-/
import AtMostOnce.Proofs.Engine.Desk
import AtMostOnce.Proofs.Fields.Takeover

namespace AtMostOnce

/-- A deadline that has passed stays so. -/
theorem Record.isOverdue_later {r : Record} {now later : Millis} (h : r.isOverdue now = true)
    (hle : now ≤ later) : r.isOverdue later = true := by
  unfold isOverdue at h ⊢
  split at h
  · exact decide_eq_true (Int.lt_of_lt_of_le (of_decide_eq_true h) hle)
  · cases h

namespace Ledger

open Fields (Derived lockName)

/-- A ledger in memory or over a server of fields. -/
inductive Store where
  | memory (records : Memory)
  | fields (names : FieldNames) (server : FieldStore.Memory)

namespace Store

/-- Answers a request at a point in time; a lock is taken with the token. -/
def answer (now : Millis) (token : String) (q : Request) : Store → q.Answer × Store
  | memory records =>
    let next := Memory.answer now q records
    (next.1, .memory next.2)
  | fields names server =>
    let next := Fields.alone now token (Fields.perform names q) server
    (next.1, .fields names next.2)

/-- What is found under a key. -/
def find? (s : Store) (now : Millis) (k : Key) : Except Error Record :=
  (s.answer now "" (.find k)).1

/-- Nothing is kept under the key. -/
def Vacant (s : Store) (now : Millis) (k : Key) : Prop :=
  match s with
  | memory records => records.get? k = none
  | fields _ server => server.entry? now k.text = none

/-- Is a record of the key in progress? -/
def InProgress (s : Store) (now : Millis) (k : Key) : Prop :=
  ∃ r, s.find? now k = .ok r ∧ r.status = .inProgress

/-- The lock of a key. -/
def lock? (s : Store) (now : Millis) (k : Key) : Option FieldStore.Entry :=
  match s with
  | memory _ => none
  | fields _ server => server.entry? now (lockName k)

/-- Every claim of the key is granted from now on. -/
def Open (s : Store) (now : Millis) (k : Key) : Prop :=
  ∀ later token r, now ≤ later → r.key = k →
    (s.answer later token (.claim r)).1 = .ok .created

/-- Records are under their keys, and the server does not fail. -/
def Sound : Store → Prop
  | memory records => records.Keyed
  | fields _ server => server.Sound

/-- The fields of a record have different names. -/
def Distinct : Store → Prop
  | memory _ => True
  | fields names _ => Fields.Distinct names

/-- Nothing is kept at all, and the server does not fail. -/
def Blank : Store → Prop
  | memory records => records = []
  | fields _ server => server = .empty

variable {s : Store} {now time : Millis} {token : String} {k : Key} {q : Request} {r : Record}

theorem Sound.answer (h : s.Sound) (now : Millis) (token : String) (q : Request) :
    (s.answer now token q).2.Sound := by
  cases s with
  | memory records => exact Memory.Keyed.answer h now q
  | fields names server => exact Fields.sound_alone h now token _

theorem Distinct.answer (h : s.Distinct) (now : Millis) (token : String) (q : Request) :
    (s.answer now token q).2.Distinct := by
  cases s with
  | memory records => trivial
  | fields names server => exact h

/-! ### What a ledger answers -/

theorem claim_answered (h : s.Sound) (now : Millis) (token : String) (r : Record) :
    ∃ outcome, (s.answer now token (.claim r)).1 = .ok outcome := by
  cases s with
  | memory records =>
    show ∃ outcome, (Memory.answer now (.claim r) records).1 = _
    rw [Memory.answer]
    split
    · exact ⟨_, rfl⟩
    · exact ⟨_, rfl⟩
  | fields names server => exact Fields.claim_answered h token

theorem complete_answered (h : s.Sound) (now : Millis) (token : String) (r : Record) :
    (s.answer now token (.complete r)).1 = .ok () := by
  cases s with
  | memory records => rfl
  | fields names server =>
    show (Fields.alone now token (Fields.perform names (.complete r)) server).1 = _
    rw [Fields.alone_complete]
    exact (FieldStore.Memory.answer_ok h.writes now _).choose_spec

theorem remove_answered (s : Store) (now : Millis) (token : String) (k : Key) :
    (s.answer now token (.remove k)).1 = .ok () := by
  cases s <;> rfl

/-- Finding a record does not draw a token. -/
theorem find_answered (s : Store) (now : Millis) (token : String) (k : Key) :
    (s.answer now token (.find k)).1 = s.find? now k := by
  cases s with
  | memory records => rfl
  | fields names server =>
    show (Fields.alone now token (Fields.find names k) server).1 =
      (Fields.alone now "" (Fields.find names k) server).1
    rw [Fields.alone_find, Fields.alone_find]

theorem find?_memory (records : Memory) (now : Millis) (k : Key) :
    (memory records).find? now k =
      match records.get? k with
      | some r => .ok r
      | none => .error (.itemNotFound k) := by
  show (Memory.answer now (.find k) records).1 = _
  rw [Memory.answer]
  cases records.get? k <;> rfl

theorem key_of_find (h : s.Sound) (hfound : s.find? now k = .ok r) : r.key = k := by
  cases s with
  | memory records =>
    rw [find?_memory] at hfound
    split at hfound
    · rename_i r' hget
      cases hfound
      exact h k _ hget
    · cases hfound
  | fields names server =>
    obtain ⟨-, -, hkey, -⟩ := Fields.find_ok hfound
    exact hkey

/-! ### Vacant keys -/

theorem vacant_removed (h : s.Sound) (now : Millis) (token : String) (k : Key) :
    (s.answer now token (.remove k)).2.Vacant now k := by
  cases s with
  | memory records => exact Memory.get?_removed records k
  | fields names server =>
    show FieldStore.Memory.entry?
      (Fields.alone now token (Fields.perform names (.remove k)) server).2 now k.text = none
    rw [Fields.alone_remove]
    exact (FieldStore.Memory.entry?_of_erase h.distinct none rfl _).trans (if_pos rfl)

theorem Vacant.later (h : s.Sound) (vacant : s.Vacant now k) (hle : now ≤ time) :
    s.Vacant time k := by
  cases s with
  | memory records => exact vacant
  | fields names server =>
    show server.entry? time k.text = none
    rw [FieldStore.Memory.entry?_later h.distinct hle, show server.entry? now k.text = none from
      vacant]
    rfl

/-- A request about another derived key leaves a key vacant. -/
theorem Vacant.answer_other (h : s.Sound) (vacant : s.Vacant now k) (hk : Derived k)
    (hq : Derived q.key) (hne : q.key ≠ k) (token : String) :
    (s.answer now token q).2.Vacant now k := by
  cases s with
  | memory records => exact (Memory.get?_answer_of_ne hne).trans vacant
  | fields names server =>
    exact (Fields.entry?_perform_other h token hk hq hne (.inl rfl)).trans vacant

/-- A vacant key is open to claims. -/
theorem Vacant.isOpen (h : s.Sound) (vacant : s.Vacant now k) : s.Open now k := by
  intro later token r hle hkey
  have still := Vacant.later h vacant hle
  subst hkey
  cases s with
  | memory records =>
    show (Memory.answer later (.claim r) records).1 = _
    rw [Memory.answer, if_pos]
    rw [Memory.isFree, show records.get? r.key = none from still]
  | fields names server =>
    show (Fields.alone later token (Fields.claim names r) server).1 = _
    obtain ⟨_, -, -, hclaim⟩ := Fields.alone_claim_fresh h names token fun e he => by
      rw [show server.entry? later r.key.text = none from still] at he
      cases he
    rw [hclaim]

theorem not_found_of_vacant (vacant : s.Vacant now k) :
    s.find? now k = .error (.itemNotFound k) := by
  cases s with
  | memory records =>
    rw [find?_memory, show records.get? k = none from vacant]
  | fields names server =>
    show (Fields.alone now "" (Fields.find names k) server).1 = _
    rw [Fields.alone_find, FieldStore.Memory.fields?, show server.entry? now k.text = none from
      vacant]
    rfl

/-! ### Records in progress -/

theorem inProgress_memory {records : Memory} :
    (memory records).InProgress now k ↔
      ∃ r, records.get? k = some r ∧ r.status = .inProgress := by
  unfold InProgress
  rw [find?_memory]
  constructor
  · rintro ⟨r, hfound, hstatus⟩
    split at hfound
    · rename_i hget
      cases hfound
      exact ⟨_, hget, hstatus⟩
    · cases hfound
  · rintro ⟨r, hget, hstatus⟩
    rw [hget]
    exact ⟨r, rfl, hstatus⟩

theorem inProgress_fields {names : FieldNames} {server : FieldStore.Memory} :
    (fields names server).InProgress now k ↔
      ∃ e, server.entry? now k.text = some e ∧
        Status.parse ((e.fields.get? names.status).getD "") = .ok .inProgress := by
  constructor
  · rintro ⟨r, hfound, hstatus⟩
    obtain ⟨e, he, -, hparse, -⟩ := Fields.find_ok hfound
    rw [hstatus] at hparse
    exact ⟨e, he, hparse⟩
  · rintro ⟨e, he, hparse⟩
    exact Fields.find_of_status he hparse

/-- A record that is in progress has been so before if only time has passed. -/
theorem InProgress.earlier (h : s.Sound) (hle : now ≤ time) (later : s.InProgress time k) :
    s.InProgress now k := by
  cases s with
  | memory records =>
    rw [inProgress_memory] at later ⊢
    exact later
  | fields names server =>
    rw [inProgress_fields] at later ⊢
    obtain ⟨e, he, hparse⟩ := later
    rw [FieldStore.Memory.entry?_later h.distinct hle] at he
    exact ⟨e, (Option.filter_eq_some_iff.mp he).1, hparse⟩

/-- A request about another derived key puts no record in progress. -/
theorem inProgress_answer_other (h : s.Sound) (hk : Derived k) (hq : Derived q.key)
    (hne : q.key ≠ k) (left : (s.answer now token q).2.InProgress now k) :
    s.InProgress now k := by
  cases s with
  | memory records =>
    obtain ⟨r, hget, hstatus⟩ := inProgress_memory.mp left
    rw [Memory.get?_answer_of_ne hne] at hget
    exact inProgress_memory.mpr ⟨r, hget, hstatus⟩
  | fields names server =>
    obtain ⟨e, he, hparse⟩ := inProgress_fields.mp left
    rw [Fields.entry?_perform_other h token hk hq hne (.inl rfl)] at he
    exact inProgress_fields.mpr ⟨e, he, hparse⟩

/-- Finding a record puts none in progress. -/
theorem inProgress_find (h : s.Sound)
    (left : (s.answer now token (.find k)).2.InProgress now k) : s.InProgress now k := by
  cases s with
  | memory records =>
    have hsame : (Memory.answer now (.find k) records).2 = records := by
      rw [Memory.answer]
      split <;> rfl
    obtain ⟨r, hget, hstatus⟩ := inProgress_memory.mp left
    rw [hsame] at hget
    exact inProgress_memory.mpr ⟨r, hget, hstatus⟩
  | fields names server =>
    obtain ⟨e, he, hparse⟩ := inProgress_fields.mp left
    rw [show (Fields.alone now token (Fields.perform names (.find k)) server).2 =
        (FieldStore.Memory.answer now (.read k.text) server).2 by
          show (Fields.alone now token (Fields.find names k) server).2 = _
          rw [Fields.alone_find],
      FieldStore.Memory.entry?_read h.distinct] at he
    exact inProgress_fields.mpr ⟨e, he, hparse⟩

theorem not_inProgress_of_vacant (vacant : s.Vacant now k) : ¬ s.InProgress now k := by
  rintro ⟨r, hfound, -⟩
  rw [not_found_of_vacant vacant] at hfound
  cases hfound

/-- A completed record is not in progress. -/
theorem not_inProgress_completed (h : s.Sound) (distinct : s.Distinct)
    (hr : r.status = .completed) (token : String) :
    ¬ (s.answer now token (.complete r)).2.InProgress now r.key := by
  cases s with
  | memory records =>
    rw [show (memory records).answer now token (.complete r) =
      (.ok (), .memory (records.put r)) from rfl, inProgress_memory]
    rintro ⟨r', hget, hstatus⟩
    rw [Memory.get?_put] at hget
    cases hget
    rw [hr] at hstatus
    cases hstatus
  | fields names server =>
    intro left
    obtain ⟨e, he, hparse⟩ := inProgress_fields.mp left
    rw [Fields.alone_complete] at he
    have hcompleted := Fields.status_of_complete h distinct he
    rw [hcompleted, Option.getD_some, Status.parse_name] at hparse
    cases hparse

/-! ### Locks -/

theorem lock?_later (h : s.Sound) (hle : now ≤ time) (k : Key) :
    s.lock? time k = (s.lock? now k).filter (FieldStore.Memory.isLive time) := by
  cases s with
  | memory records => rfl
  | fields names server => exact FieldStore.Memory.entry?_later h.distinct hle _

theorem lock?_isLive (h : s.Sound) {e : FieldStore.Entry} (he : s.lock? now k = some e) :
    FieldStore.Memory.isLive now e = true := by
  cases s with
  | memory records => cases he
  | fields names server => exact FieldStore.Memory.entry?_isLive h.distinct he

/-- A lock is left as it is, or a claim of its key is granted and leaves one for ten seconds at
most. -/
theorem lock?_answer (h : s.Sound) (hnow : Word.least ≤ now) (hk : Derived k) (hq : Derived q.key)
    (token : String) :
    (s.answer now token q).2.lock? now k = s.lock? now k ∨
      q.key = k ∧ (∃ r, q = .claim r ∧ (s.answer now token (.claim r)).1 = .ok .created) ∧
        ∀ e, (s.answer now token q).2.lock? now k = some e →
          ∃ d, e.dropAt = some d ∧ d ≤ now + 10000 := by
  cases s with
  | memory records => exact .inl rfl
  | fields names server =>
    by_cases hne : q.key = k
    · subst hne
      rcases Fields.lock_of_perform h hnow token q with same | ⟨granted, lasts⟩
      · exact .inl same
      · exact .inr ⟨rfl, granted, lasts⟩
    · exact .inl (Fields.entry?_perform_other h token hk hq hne (.inr rfl))

/-! ### Ledgers without records -/

theorem Blank.sound (h : s.Blank) : s.Sound := by
  cases s with
  | memory records =>
    cases h
    exact nofun
  | fields names server =>
    cases h
    exact FieldStore.Memory.sound_empty

theorem Blank.vacant (h : s.Blank) (now : Millis) (k : Key) : s.Vacant now k := by
  cases s with
  | memory records =>
    cases h
    rfl
  | fields names server =>
    cases h
    rfl

theorem Blank.lock? (h : s.Blank) (now : Millis) (k : Key) : s.lock? now k = none := by
  cases s with
  | memory records => rfl
  | fields names server =>
    cases h
    rfl

/-! ### Orphans -/

/-- An orphan whose lock is free is open to claims. -/
theorem open_of_orphan (h : s.Sound) (hfound : s.find? now k = .ok r)
    (hstatus : r.status = .inProgress) (hover : r.isOverdue now = true)
    (free : s.lock? now k = none) : s.Open now k := by
  intro later token r' hle hkey
  subst hkey
  cases s with
  | memory records =>
    rw [find?_memory] at hfound
    split at hfound
    · rename_i r0 hget
      cases hfound
      have hover' : r.isOverdue later = true := Record.isOverdue_later hover hle
      show (Memory.answer later (.claim r') records).1 = _
      rw [Memory.answer, if_pos]
      rw [Memory.isFree, hget]
      simp [Record.isReplaceable, hstatus, hover']
    · cases hfound
  | fields names server =>
    obtain ⟨e, he, hoverdue⟩ := Fields.overdue_of_find hfound hstatus hover
    have hlater := FieldStore.Memory.entry?_later h.distinct hle
    have free' : server.entry? later (lockName r'.key) = none := by
      rw [hlater, show server.entry? now (lockName r'.key) = none from free]
      rfl
    cases hheld : server.entry? later r'.key.text with
    | none =>
      -- the orphan has been dropped meanwhile
      show (Fields.alone later token (Fields.claim names r') server).1 = _
      obtain ⟨_, -, -, hclaim⟩ := Fields.alone_claim_fresh h names token
        fun e' he' => by cases hheld.symm.trans he'
      rw [hclaim]
    | some e' =>
      rw [hlater, he] at hheld
      obtain rfl : e = e' := Option.some.inj (Option.filter_eq_some_iff.mp hheld).1
      refine Fields.claim_of_orphan h token (.trans (hlater _) ?_) (hoverdue.later hle) free'
      rw [he]
      exact hheld

end Store

end Ledger

end AtMostOnce
