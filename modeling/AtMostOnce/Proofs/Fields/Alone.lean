/-
One request alone at one point in time.

Nobody else has a turn and the clock stands still, so a request is a function of the
server's memory: what it is answered, and what it leaves under its key.  A claim creates
its record on a vacant key and lets a record be that blocks it; what a find returns and a
completion writes can be written down.
-/
import AtMostOnce.Proofs.Fields.Winner

namespace AtMostOnce

namespace FieldStore.Memory

/-- The keys are distinct, and the next write does not fail. -/
structure Sound (m : Memory) : Prop where
  distinct : m.Distinct
  writes : m.writeFails = false

theorem sound_empty : Sound .empty := ⟨List.nodup_nil, rfl⟩

theorem Sound.answer {m : Memory} (h : m.Sound) (now : Millis) (op : Operation) :
    (Memory.answer now op m).2.Sound :=
  ⟨answer_distinct h.distinct now op, writeFails_answer h.writes now op⟩

end FieldStore.Memory

namespace Ledger.Fields

open Dialogue FieldStore

/-! ### Answering to the end -/

/-- Answers at a point in time; there is one token. -/
def answerAlone (now : Millis) (token : String) : (q : Request) → StateM FieldStore.Memory q.Answer
  | .now, m => (now, m)
  | .token, m => (token, m)
  | .store op, m => m.answer now op

/-- Carries something out alone at a point in time. -/
def alone {β : Type} (now : Millis) (token : String) (d : Action β) :
    StateM FieldStore.Memory β := d.answerBy (answerAlone now token)

section

variable {β γ : Type} {names : FieldNames} {now : Millis} {token : String}
  {m : FieldStore.Memory} {r : Record} {key : Key}

theorem alone_ask (q : Request) (next : q.Answer → Action β) :
    alone now token (.ask q next) m =
      alone now token (next (answerAlone now token q m).1) (answerAlone now token q m).2 := rfl

theorem alone_bind (d : Action β) (f : β → Action γ) (m : FieldStore.Memory) :
    alone now token (d >>= f) m =
      alone now token (f (alone now token d m).1) (alone now token d m).2 := by
  induction d generalizing m with
  | done b => rfl
  | ask q next ih => rw [ask_bind, alone_ask, ih, alone_ask]

theorem alone_store (op : Operation) (f : op.Answer → Action β) :
    alone now token (store op >>= f) m =
      alone now token (f (FieldStore.Memory.answer now op m).1)
        (FieldStore.Memory.answer now op m).2 := rfl

theorem alone_ttlOf : alone now token (ttlOf r) m = (ttlAt now r, m) := by
  unfold ttlOf ttlM ttlAt
  cases r.expiry <;> rfl

theorem sound_alone (h : m.Sound) (now : Millis) (token : String) (d : Action β) :
    (alone now token d m).2.Sound := by
  induction d generalizing m with
  | done b => exact h
  | ask q next ih =>
    cases q with
    | now => exact ih _ h
    | token => exact ih _ h
    | store op => exact ih _ (h.answer now op)

/-! ### Claims -/

/-- What every turn of a claim keeps holds when it is carried out alone. -/
theorem claim_alone {kept : Option Entry → Option Entry → Bid → Prop} (token : String) (h : m.Sound)
    (hnow : Word.InRange now) (hr : Lasting now r)
    (turns : ∀ held lock s held' lock' s', kept held lock s →
      Turn names now r held lock s held' lock' s' → kept held' lock' s')
    (h0 : kept (m.entry? now r.key.text) (m.entry? now (lockName r.key)) .starting) :
    ∃ lock s, kept (Memory.entry? (alone now token (claim names r) m).2 now r.key.text) lock s ∧
      bidEnds names now s (alone now token (claim names r) m).1 := by
  have step : ∀ q (m : FieldStore.Memory) s,
      (m.Sound ∧ kept (m.entry? now r.key.text) (m.entry? now (lockName r.key)) s) →
      bidAllows names now r s q → answersAt now q (answerAlone now token q m).1 ∧
        (answerAlone now token q m).2.Sound ∧
        kept (Memory.entry? (answerAlone now token q m).2 now r.key.text)
          (Memory.entry? (answerAlone now token q m).2 now (lockName r.key))
          (s.after q (answerAlone now token q m).1) := by
    rintro q m s ⟨hm, hk⟩ hq
    cases q with
    | now => exact ⟨rfl, hm, hk⟩
    | token => exact ⟨trivial, hm, hk⟩
    | store op =>
      refine ⟨?_, hm.answer now op, turns _ _ _ _ _ _ hk
        (turn_of_answer hm.distinct hm.writes hnow hr hq)⟩
      obtain ⟨v, hv⟩ := Memory.answer_ok hm.writes now op
      cases op with
      | read key => exact ⟨_, _, rfl, Memory.secondsOf_le_add_ttl hnow m key⟩
      | _ => exact ⟨v, hv⟩
  obtain ⟨s, ⟨-, hk⟩, hends⟩ := (claim_follows_bid names now r).answered
    (fun (m : FieldStore.Memory) s =>
      m.Sound ∧ kept (m.entry? now r.key.text) (m.entry? now (lockName r.key)) s) ⟨h, h0⟩ step
  exact ⟨_, s, hk, hends⟩

/-- A claim of a key without a status claims that, and writes its record. -/
theorem alone_claim_fresh (h : m.Sound) (names : FieldNames) (token : String)
    (vacant : ∀ e, m.entry? now r.key.text = some e → e.fields.get? names.status = none) :
    ∃ m', m'.Sound ∧ (FieldStore.Memory.answer now
        (.claim r.key.text names.status Status.inProgress.name) m) = (.ok true, m') ∧
      alone now token (claim names r) m = (.ok .created, (FieldStore.Memory.answer now
        (.write r.key.text (claimFields names r) (ttlAt now r)) m').2) := by
  obtain ⟨granted, hg⟩ := FieldStore.Memory.claim_answered m now r.key.text names.status
    Status.inProgress.name
  have hgranted : granted = true := by
    cases granted with
    | true => rfl
    | false =>
      obtain ⟨e, he, hstatus⟩ := (FieldStore.Memory.claim_refused h.distinct hg).1
      exact absurd (vacant e he) hstatus
  rw [hgranted] at hg
  have hsound := h.answer now (.claim r.key.text names.status Status.inProgress.name)
  obtain ⟨_, hwritten⟩ := FieldStore.Memory.answer_ok hsound.writes now
    (.write r.key.text (claimFields names r) (ttlAt now r))
  refine ⟨_, hsound, Prod.ext hg rfl, ?_⟩
  unfold claim claimM
  change alone now token (store _ >>= _) m = _
  rw [alone_store, hg]
  change alone now token (ttlOf r >>= _) _ = _
  rw [alone_bind, alone_ttlOf]
  change alone now token (store _ >>= _) _ = _
  rw [alone_store, hwritten]
  rfl

/-- A claim of a vacant key is granted, and its record is there unless its end is past already. -/
theorem claim_free (names : FieldNames) (token : String) (h : m.Sound) (hexpiry : r.expiry ≠ none)
    (free : m.entry? now r.key.text = none) :
    (alone now token (claim names r) m).1 = .ok .created ∧
      ∀ name, Memory.entry? (alone now token (claim names r) m).2 now name =
        if r.key.text = name then (some (entryOf names now r)).filter (Memory.isLive now)
        else m.entry? now name := by
  obtain ⟨m', h', hclaimed, hclaim⟩ := alone_claim_fresh h names token fun e he => by
    cases free.symm.trans he
  obtain ⟨e, rfl, -, hentry⟩ := Memory.claim_granted h.distinct (congrArg Prod.fst hclaimed)
  rw [hclaimed, free] at hentry
  have hentry : m'.entry? now r.key.text = some (claimedEntry names) := hentry
  rw [hclaim]
  refine ⟨rfl, fun name => ?_⟩
  split
  · rename_i hname
    rw [← hname, Memory.entry?_write h'.distinct h'.writes, hentry, written_claimed hexpiry,
      Option.some_or]
  · rename_i hname
    have hother : Memory.entry? (FieldStore.Memory.answer now
        (.claim r.key.text names.status Status.inProgress.name) m).2 now name =
          m.entry? now name := Memory.entry?_answer_of_ne h.distinct hname
    rw [hclaimed] at hother
    have hkept : Memory.entry? (FieldStore.Memory.answer now
        (.write r.key.text (claimFields names r) (ttlAt now r)) m').2 now name =
          m'.entry? now name := Memory.entry?_answer_of_ne h'.distinct hname
    exact hkept.trans hother

/-- A claim of a vacant key creates its record. -/
theorem claim_vacant (names : FieldNames) (token : String) (h : m.Sound) (hr : Counts now r)
    (free : m.entry? now r.key.text = none) :
    (alone now token (claim names r) m).1 = .ok .created ∧
      Memory.entry? (alone now token (claim names r) m).2 now r.key.text =
        some (entryOf names now r) := by
  obtain ⟨expiry, hexpiry, -⟩ := id hr
  obtain ⟨hgranted, hentry⟩ :=
    claim_free names token h (hexpiry ▸ Option.some_ne_none expiry) free
  refine ⟨hgranted, ?_⟩
  rw [hentry, if_pos rfl, Option.filter_some, if_pos]
  exact hr.isLive _

/-- A claim meets a conflict with a record that blocks it, and lets it be. -/
theorem claim_blocked (token : String) {e : Entry} (h : m.Sound) (hnow : Word.InRange now)
    (hr : Lasting now r) (he : m.entry? now r.key.text = some e)
    (blocking : Blocking names now e.fields) :
    (alone now token (claim names r) m).1 = .ok .conflict ∧
      Memory.entry? (alone now token (claim names r) m).2 now r.key.text = some e := by
  have turns : ∀ held lock s held' lock' s', (held = some e ∧ s.Waits names now lock) →
      Turn names now r held lock s held' lock' s' → held' = some e ∧ s'.Waits names now lock' := by
    rintro held lock s held' lock' s' ⟨rfl, hwaits⟩ turn
    obtain ⟨rfl, rfl, hwaits'⟩ := hwaits.turn blocking.status (.inl blocking) turn
    exact ⟨rfl, hwaits'⟩
  obtain ⟨lock, s, ⟨hheld, hwaits⟩, hends⟩ := claim_alone token h hnow hr turns ⟨he, trivial⟩
  exact ⟨hwaits.ends hends, hheld⟩

/-! ### The other requests -/

/-- The record that fields and a time to live stand for at a point in time. -/
def recordAt (names : FieldNames) (key : Key) (now : Millis) (fields : Fields) (ttl : Int) :
    Except Error Record :=
  match Status.parse ((fields.get? names.status).getD "") with
  | .error err => .error err
  | .ok status =>
    .ok ⟨key, status, if 0 ≤ ttl then some (Word.wrap (secondsOf now + ttl)) else none,
      deadline? names fields, fields.get? names.data,
      Record.nonEmptyHash (fields.get? names.payloadHash)⟩

theorem alone_recordOf {fields : Fields} {ttl : Int} :
    alone now token (recordOf names key fields ttl) m = (recordAt names key now fields ttl, m) := by
  unfold recordOf recordM recordAt
  cases Status.parse ((fields.get? names.status).getD "") with
  | error err => rfl
  | ok status =>
    by_cases httl : 0 ≤ ttl
    · simp only [if_pos httl]
      rfl
    · simp only [if_neg httl]
      rfl

/-- The fields under a key and its time to live are read, and a record is made of them. -/
theorem alone_find : alone now token (find names key) m =
    (if ((m.fields? now key.text).getD []).isEmpty then .error (.itemNotFound key)
      else recordAt names key now ((m.fields? now key.text).getD []) (m.ttl now key.text),
      (FieldStore.Memory.answer now (.read key.text) m).2) := by
  unfold find findM
  show alone now token (if _ then _ else _) _ = _
  by_cases hempty : ((m.fields? now key.text).getD []).isEmpty = true
  · rw [if_pos hempty, if_pos hempty]
    rfl
  · rw [if_neg hempty, if_neg hempty]
    change alone now token (recordOf names key _ _) _ = _
    rw [alone_recordOf]
    rfl

theorem alone_complete : alone now token (perform names (.complete r)) m =
    FieldStore.Memory.answer now (.write r.key.text (completedFields names r) (ttlAt now r)) m := by
  show alone now token ((ttlOf r >>= fun ttl =>
    store (.write r.key.text (completedFields names r) ttl) : Action (Except Error Unit))) m = _
  rw [alone_bind, alone_ttlOf]
  rfl

theorem alone_remove : alone now token (perform names (.remove key)) m =
    FieldStore.Memory.answer now (.delete key.text) m := rfl

end

end Ledger.Fields

end AtMostOnce
