/-
What becomes of a claim that is carried out alone.

A claim has four courses (`ClaimCourse`): there is no status and it writes its record; a
record stands in its way; the record has to give way, but the lock of the key is there; or the
lock is free and the claim takes the record over.  The first and the last grant it the key.
So a key without a record is granted in any case, and an orphan exactly if its lock is free.

A lock comes about by a takeover only, and is there for ten seconds at most
(`lock_of_perform`); nothing else that is asked about a key touches its lock, and nothing that
is asked about one key touches what belongs to another (`entry?_perform_of_ne`).
-/
import AtMostOnce.Proofs.Fields.Alone
import AtMostOnce.Proofs.Fields.Apart
import AtMostOnce.Proofs.Range

namespace AtMostOnce.Ledger.Fields

open Dialogue FieldStore

variable {β : Type} {names : FieldNames} {now time : Millis} {token : String}
  {m : FieldStore.Memory} {r : Record} {k : Key} {e : Entry}

/-! ### Standing in the way -/

/-- Do fields that are read at a point in time stand in the way of a claim? -/
def blocksAt (names : FieldNames) (key : Key) (now : Millis) (fields : Fields) (ttl : Int) : Bool :=
  !fields.isEmpty &&
    match recordAt names key now fields ttl with
    | .error _ => false
    | .ok r => !r.isReplaceable now

theorem alone_blocks {fields : Fields} {ttl : Int} :
    alone now token (blocks names k fields ttl) m = (blocksAt names k now fields ttl, m) := by
  unfold blocks blocksM blocksAt
  by_cases hempty : fields.isEmpty = true
  · rw [if_pos hempty, hempty]
    rfl
  · rw [if_neg hempty]
    change alone now token (recordOf names k fields ttl >>= _) m = _
    rw [alone_bind, alone_recordOf, (Bool.not_eq_true _).mp hempty]
    cases recordAt names k now fields ttl <;> rfl

/-! ### Locks -/

/-- For how many seconds a claim takes the lock. -/
def lockSeconds (now : Millis) (r : Record) : Int :=
  min ((ttlAt now r).getD maxLockSeconds) maxLockSeconds

theorem lockSeconds_bounds (now : Millis) (r : Record) :
    1 ≤ lockSeconds now r ∧ lockSeconds now r ≤ 10 := by
  unfold lockSeconds ttlAt maxLockSeconds
  cases r.expiry with
  | none =>
    rw [Option.map_none, Option.getD_none]
    omega
  | some expiry =>
    rw [Option.map_some, Option.getD_some]
    omega

/-- A lock lasts for ten seconds at most. -/
theorem ahead_lockSeconds_le (hnow : Word.least ≤ now) (r : Record) :
    FieldStore.Memory.ahead now (lockSeconds now r) ≤ now + 10000 := by
  obtain ⟨hleast, hmost⟩ := lockSeconds_bounds now r
  have hseconds : Word.wrap (lockSeconds now r * 1000) = lockSeconds now r * 1000 := by
    refine Word.wrap_eq ⟨?_, ?_⟩
    · unfold Word.least
      omega
    · unfold Word.greatest
      omega
  rw [FieldStore.Memory.ahead_wrap, hseconds]
  refine Int.le_trans (Word.wrap_le ?_) ?_ <;> omega

/-- What a lock that was free leaves under its name. -/
theorem lock_free {name : String} (h : m.Sound) (free : m.entry? now name = none) (token : String)
    (seconds : Int) :
    (FieldStore.Memory.answer now (.lock name token seconds) m).1 = .ok true ∧
      ∀ e, FieldStore.Memory.entry? (FieldStore.Memory.answer now (.lock name token seconds) m).2
        now name = some e → e.dropAt = some (FieldStore.Memory.ahead now seconds) := by
  rw [FieldStore.Memory.answer_lock, show (m.live now).get? name = none from free]
  refine ⟨rfl, fun e he => ?_⟩
  rw [FieldStore.Memory.entry?_of_set h.distinct (some _) rfl name, if_pos rfl,
    Option.some_or] at he
  obtain ⟨hput, -⟩ := Option.filter_eq_some_iff.mp he
  cases hput
  rfl

/-! ### Courses of a claim -/

/-- How a claim can go that is carried out alone: what it finds, what it leaves, and what it is
told. -/
inductive ClaimCourse (names : FieldNames) (now : Millis) (r : Record)
    (m m' : FieldStore.Memory) : Except Error Outcome → Prop
  /-- There was no status. -/
  | fresh (vacant : ∀ e, m.entry? now r.key.text = some e → e.fields.get? names.status = none)
    (lock : m'.entry? now (lockName r.key) = m.entry? now (lockName r.key)) :
    ClaimCourse names now r m m' (.ok .created)
  /-- A record stands in the way. -/
  | blocked {e : Entry} (held : m.entry? now r.key.text = some e)
    (blocking : blocksAt names r.key now e.fields (m.ttl now r.key.text) = true)
    (lock : m'.entry? now (lockName r.key) = m.entry? now (lockName r.key)) :
    ClaimCourse names now r m m' (.ok .conflict)
  /-- The record would give way, but the lock is there. -/
  | locked (held : m.entry? now (lockName r.key) ≠ none)
    (lock : m'.entry? now (lockName r.key) = m.entry? now (lockName r.key)) :
    ClaimCourse names now r m m' (.ok .conflict)
  /-- The record is taken over, and the lock is left. -/
  | taken (free : m.entry? now (lockName r.key) = none)
    (lock : ∀ e, m'.entry? now (lockName r.key) = some e →
      e.dropAt = some (FieldStore.Memory.ahead now (lockSeconds now r))) :
    ClaimCourse names now r m m' (.ok .created)

theorem key_ne_lockName (k : Key) {op : Operation} (hop : op.key = k.text) :
    op.key ≠ lockName k := fun h => Claims.lockName_ne k (h.symm.trans hop)

/-- The lock of a key is left by what is asked about its record. -/
theorem lock_answer (h : m.Sound) {op : Operation} (hop : op.key = k.text) :
    FieldStore.Memory.entry? (FieldStore.Memory.answer now op m).2 now (lockName k) =
      m.entry? now (lockName k) :=
  FieldStore.Memory.entry?_answer_of_ne h.distinct (key_ne_lockName k hop)

/-- Whoever gets the lock replaces what is there. -/
theorem alone_overwrite : alone now token (overwrite names r) m =
    let locked := FieldStore.Memory.answer now
      (.lock (lockName r.key) token (lockSeconds now r)) m
    match locked.1 with
    | .error err => (.error err, locked.2)
    | .ok false => (.ok .conflict, locked.2)
    | .ok true =>
      (.ok .created, (FieldStore.Memory.answer now
        (.replace r.key.text (orphanFields names r) (ttlAt now r)) locked.2).2) := by
  unfold overwrite overwriteM
  change alone now token (ttlOf r >>= _) m = _
  rw [alone_bind, alone_ttlOf]
  show alone now token (store (.lock (lockName r.key) token (lockSeconds now r)) >>= _) m = _
  rw [alone_store]
  dsimp only
  cases (FieldStore.Memory.answer now (.lock (lockName r.key) token (lockSeconds now r)) m).1 with
  | error err => rfl
  | ok granted => cases granted <;> rfl

/-- A claim of a key that has a status lets the record be that blocks it, or goes for the lock. -/
theorem alone_claim_refused (h : m.Sound) (token : String) (held : m.entry? now r.key.text = some e)
    (status : e.fields.get? names.status ≠ none) :
    ∃ m', m'.Sound ∧ (∀ name, m'.entry? now name = m.entry? now name) ∧
      alone now token (claim names r) m =
        if blocksAt names r.key now e.fields (m.ttl now r.key.text) then (.ok .conflict, m')
        else alone now token (overwrite names r) m' := by
  obtain ⟨granted, hg⟩ := FieldStore.Memory.claim_answered m now r.key.text names.status
    Status.inProgress.name
  have hrefused : granted = false := by
    cases granted with
    | false => rfl
    | true =>
      obtain ⟨e', he', hnone, -⟩ := FieldStore.Memory.claim_granted h.distinct hg
      rw [held] at he'
      rw [he'] at hnone
      exact absurd hnone status
  rw [hrefused] at hg
  obtain ⟨-, hsame⟩ := FieldStore.Memory.claim_refused h.distinct hg
  have hsound := h.answer now (.claim r.key.text names.status Status.inProgress.name)
  have hentry : ∀ name, FieldStore.Memory.entry? (FieldStore.Memory.answer now
      (.claim r.key.text names.status Status.inProgress.name) m).2 now name =
        m.entry? now name := by
    intro name
    by_cases hname : r.key.text = name
    · rw [← hname]
      exact hsame
    · exact FieldStore.Memory.entry?_answer_of_ne h.distinct hname
  refine ⟨(FieldStore.Memory.answer now (.read r.key.text) (FieldStore.Memory.answer now
    (.claim r.key.text names.status Status.inProgress.name) m).2).2, hsound.answer now _, ?_, ?_⟩
  · intro name
    rw [FieldStore.Memory.entry?_read hsound.distinct]
    exact hentry name
  · have hfields : FieldStore.Memory.fields? (FieldStore.Memory.answer now
        (.claim r.key.text names.status Status.inProgress.name) m).2 now r.key.text =
          some e.fields := by
      rw [FieldStore.Memory.fields?, hentry, held]
      rfl
    have httl : FieldStore.Memory.ttl (FieldStore.Memory.answer now
        (.claim r.key.text names.status Status.inProgress.name) m).2 now r.key.text =
          m.ttl now r.key.text := by
      rw [FieldStore.Memory.ttl_eq, FieldStore.Memory.ttl_eq, hentry]
    unfold claim claimM
    change alone now token (store _ >>= _) m = _
    rw [alone_store, hg]
    change alone now token (store _ >>= _) _ = _
    rw [alone_store]
    show alone now token (blocks names r.key (Option.getD _ [])
      (FieldStore.Memory.ttl _ now r.key.text) >>= _) _ = _
    rw [hfields, httl, alone_bind, alone_blocks]
    show alone now token (if blocksAt names r.key now e.fields _ = true then _ else _) _ = _
    split <;> rfl

/-- **A claim takes one of four courses.** -/
theorem claim_course (h : m.Sound) (names : FieldNames) (now : Millis) (token : String)
    (r : Record) :
    ClaimCourse names now r m (alone now token (claim names r) m).2
      (alone now token (claim names r) m).1 := by
  by_cases vacant : ∀ e, m.entry? now r.key.text = some e → e.fields.get? names.status = none
  · obtain ⟨m', h', hclaimed, hclaim⟩ := alone_claim_fresh h names token vacant
    have hlock : FieldStore.Memory.entry? (FieldStore.Memory.answer now
        (.claim r.key.text names.status Status.inProgress.name) m).2 now (lockName r.key) =
          m.entry? now (lockName r.key) := lock_answer h rfl
    rw [hclaimed] at hlock
    rw [hclaim]
    exact .fresh vacant ((lock_answer h' rfl).trans hlock)
  · push Not at vacant
    obtain ⟨e, held, status⟩ := vacant
    obtain ⟨m', h', hentry, hclaim⟩ := alone_claim_refused h token held status
    rw [hclaim]
    by_cases blocking :
        blocksAt names r.key now e.fields (m.ttl now r.key.text) = true
    · rw [if_pos blocking]
      exact .blocked held blocking (hentry _)
    · rw [if_neg blocking, alone_overwrite]
      by_cases free : m.entry? now (lockName r.key) = none
      · obtain ⟨hlocked, hlasts⟩ := lock_free h' ((hentry _).trans free) token (lockSeconds now r)
        dsimp only
        rw [hlocked]
        refine .taken free fun e he => hlasts e ?_
        rw [lock_answer (h'.answer now _) rfl] at he
        exact he
      · have held : m'.entry? now (lockName r.key) ≠ none := by
          rw [hentry]
          exact free
        dsimp only
        rw [(FieldStore.Memory.lock_refused h'.distinct held).1]
        exact .locked free ((FieldStore.Memory.lock_refused h'.distinct held).2.trans (hentry _))

/-! ### What requests find and leave -/

/-- What is found is read from the fields under the key. -/
theorem find_ok (hfound : (alone now token (find names k) m).1 = .ok r) :
    ∃ e, m.entry? now k.text = some e ∧ r.key = k ∧
      Status.parse ((e.fields.get? names.status).getD "") = .ok r.status ∧
      r.deadline = deadline? names e.fields := by
  rw [alone_find] at hfound
  dsimp only at hfound
  split at hfound
  · cases hfound
  · rename_i hfields
    cases he : m.entry? now k.text with
    | none =>
      rw [FieldStore.Memory.fields?, he] at hfields
      exact absurd rfl hfields
    | some e =>
      rw [FieldStore.Memory.fields?, he, Option.map_some, Option.getD_some, recordAt] at hfound
      cases hparse : Status.parse ((e.fields.get? names.status).getD "") with
      | error err =>
        rw [hparse] at hfound
        cases hfound
      | ok status =>
        rw [hparse] at hfound
        cases hfound
        exact ⟨e, rfl, rfl, hparse, rfl⟩

/-- An entry with a status is found. -/
theorem find_of_status {status : Status} (held : m.entry? now k.text = some e)
    (hparse : Status.parse ((e.fields.get? names.status).getD "") = .ok status) :
    ∃ r, (alone now token (find names k) m).1 = .ok r ∧ r.status = status := by
  have hfilled : e.fields.isEmpty ≠ true := by
    intro hempty
    rw [List.isEmpty_iff.mp hempty] at hparse
    cases hparse
  rw [alone_find, FieldStore.Memory.fields?, held, Option.map_some, Option.getD_some]
  dsimp only
  rw [if_neg hfilled, recordAt, hparse]
  exact ⟨_, rfl, rfl⟩

/-- The entry is that of a record in progress whose deadline has passed. -/
def Overdue (names : FieldNames) (now : Millis) (e : Entry) : Prop :=
  Status.parse ((e.fields.get? names.status).getD "") = .ok .inProgress ∧
    ∃ d, deadline? names e.fields = some d ∧ d < now

theorem Overdue.later (h : Overdue names now e) (hle : now ≤ time) : Overdue names time e := by
  obtain ⟨hparse, d, hd, hlt⟩ := h
  exact ⟨hparse, d, hd, Int.lt_of_lt_of_le hlt hle⟩

theorem Overdue.blocksAt (h : Overdue names now e) (k : Key) (ttl : Int) :
    blocksAt names k now e.fields ttl = false := by
  obtain ⟨hparse, d, hd, hlt⟩ := h
  unfold Fields.blocksAt recordAt
  rw [hparse]
  simp [Record.isReplaceable, Record.isOverdue, hd, hlt]

theorem overdue_of_find (hfound : (alone now token (find names k) m).1 = .ok r)
    (hstatus : r.status = .inProgress) (hover : r.isOverdue now = true) :
    ∃ e, m.entry? now k.text = some e ∧ Overdue names now e := by
  obtain ⟨e, he, -, hparse, hdeadline⟩ := find_ok hfound
  rw [hstatus] at hparse
  rw [Record.isOverdue] at hover
  cases hd : r.deadline with
  | none =>
    rw [hd] at hover
    cases hover
  | some d =>
    rw [hd] at hover
    exact ⟨e, he, hparse, d, hdeadline ▸ hd, of_decide_eq_true hover⟩

/-- The claim of an orphan is granted if the lock is free. -/
theorem claim_of_orphan (h : m.Sound) (token : String) (held : m.entry? now r.key.text = some e)
    (hover : Overdue names now e) (free : m.entry? now (lockName r.key) = none) :
    (alone now token (claim names r) m).1 = .ok .created := by
  have course := claim_course h names now token r
  generalize (alone now token (claim names r) m).1 = result at course ⊢
  cases course with
  | fresh => rfl
  | taken => rfl
  | blocked held' blocking =>
    rw [held] at held'
    cases held'
    rw [hover.blocksAt] at blocking
    cases blocking
  | locked held' => exact absurd free held'

theorem claim_answered (h : m.Sound) (token : String) :
    ∃ outcome, (alone now token (claim names r) m).1 = .ok outcome := by
  have course := claim_course h names now token r
  generalize (alone now token (claim names r) m).1 = result at course ⊢
  cases course <;> exact ⟨_, rfl⟩

/-- What a completion leaves has the fields of a completed record, with others perhaps. -/
theorem fields_of_complete (h : m.Sound)
    (he : FieldStore.Memory.entry? (FieldStore.Memory.answer now
      (.write r.key.text (completedFields names r) (ttlAt now r)) m).2 now r.key.text = some e) :
    ∃ fields, e.fields = Assoc.insertAll fields (completedFields names r) := by
  obtain ⟨e', hwritten, hfields⟩ : ∃ e', FieldStore.Memory.written now (m.entry? now r.key.text)
      (completedFields names r) (ttlAt now r) = some e' ∧
      e'.fields = ((m.entry? now r.key.text).getD ⟨[], none⟩).fields.insertAll
        (completedFields names r) := by
    unfold FieldStore.Memory.written
    cases ttlAt now r <;> exact ⟨_, rfl, rfl⟩
  rw [FieldStore.Memory.entry?_write h.distinct h.writes, hwritten, Option.some_or] at he
  obtain ⟨hsame, -⟩ := Option.filter_eq_some_iff.mp he
  cases hsame
  exact ⟨_, hfields⟩

/-- What a completion leaves has the status of a completed record. -/
theorem status_of_complete (h : m.Sound) (hnames : Distinct names)
    (he : FieldStore.Memory.entry? (FieldStore.Memory.answer now
      (.write r.key.text (completedFields names r) (ttlAt now r)) m).2 now r.key.text = some e) :
    e.fields.get? names.status = some Status.completed.name := by
  obtain ⟨fields, hfields⟩ := fields_of_complete h he
  rw [hfields]
  exact (fields_completed hnames r _).1

/-- What is asked about a key leaves its lock, unless a claim takes the record over. -/
theorem lock_of_perform (h : m.Sound) (hnow : Word.least ≤ now) (token : String)
    (q : Ledger.Request) :
    FieldStore.Memory.entry? (alone now token (perform names q) m).2 now (lockName q.key) =
        m.entry? now (lockName q.key) ∨
      (∃ r, q = .claim r ∧ (alone now token (claim names r) m).1 = .ok .created) ∧
        ∀ e, FieldStore.Memory.entry? (alone now token (perform names q) m).2 now
          (lockName q.key) = some e → ∃ d, e.dropAt = some d ∧ d ≤ now + 10000 := by
  cases q with
  | claim r =>
    have course := claim_course h names now token r
    show FieldStore.Memory.entry? (alone now token (claim names r) m).2 now (lockName r.key) = _ ∨ _
    generalize hresult : (alone now token (claim names r) m).1 = result at course
    cases course with
    | fresh _ lock => exact .inl lock
    | blocked _ _ lock => exact .inl lock
    | locked _ lock => exact .inl lock
    | taken _ lock =>
      exact .inr ⟨⟨r, rfl, hresult⟩, fun e he => ⟨_, lock e he, ahead_lockSeconds_le hnow r⟩⟩
  | find key =>
    left
    show FieldStore.Memory.entry? (alone now token (find names key) m).2 now (lockName key) = _
    rw [alone_find]
    exact lock_answer h rfl
  | complete r =>
    left
    rw [alone_complete]
    exact lock_answer h rfl
  | remove key =>
    left
    rw [alone_remove]
    exact lock_answer h rfl

/-- What is asked about one key leaves all names that do not belong to it. -/
theorem entry?_perform_of_ne (h : m.Sound) (token : String) {q : Ledger.Request} {name : String}
    (hname : ¬ Belongs q.key name) :
    FieldStore.Memory.entry? (alone now token (perform names q) m).2 now name =
      m.entry? now name := by
  obtain ⟨τ, P, first, accepts, allows, follows⟩ := call_follows_steps names q
  have step : ∀ q' (m' : FieldStore.Memory) (s : τ),
      (m'.Sound ∧ m'.entry? now name = m.entry? now name) → P.allows s q' →
        P.accepts q' (answerAlone now token q' m').1 ∧
          (answerAlone now token q' m').2.Sound ∧
          FieldStore.Memory.entry? (answerAlone now token q' m').2 now name =
            m.entry? now name := by
    rintro q' m' s ⟨h', hentry⟩ hq
    refine ⟨accepts _ _, ?_⟩
    cases q' with
    | now => exact ⟨h', hentry⟩
    | token => exact ⟨h', hentry⟩
    | store op =>
      have hop : op.key ≠ name := by
        rintro rfl
        exact hname (allows _ _ hq).belongs
      exact ⟨h'.answer now op, (FieldStore.Memory.entry?_answer_of_ne h'.distinct hop).trans hentry⟩
  obtain ⟨-, ⟨-, hentry⟩, -⟩ := follows.answered
    (fun (m' : FieldStore.Memory) _ => m'.Sound ∧ m'.entry? now name = m.entry? now name)
    ⟨h, rfl⟩ step
  have hcall : (alone now token (call names q) m).2 = (alone now token (perform names q) m).2 := by
    unfold call
    rw [alone_bind]
    rfl
  rw [← hcall]
  exact hentry

/-- What is asked about a derived key leaves the record and the lock of every other one. -/
theorem entry?_perform_other (h : m.Sound) (token : String) {q : Ledger.Request} {name : String}
    (hk : Derived k) (hq : Derived q.key) (hne : q.key ≠ k) (hname : Belongs k name) :
    FieldStore.Memory.entry? (alone now token (perform names q) m).2 now name =
      m.entry? now name :=
  entry?_perform_of_ne h token ((hk.apart hq hne.symm).not_belongs hname)

end AtMostOnce.Ledger.Fields
