/-
What an operation of the server leaves under a key.

Everything is said about the entry that is there at the time of the operation: one
lemma for each operation about the key, one for all operations about other keys, and
one for the time that passes.  The keys of the server are distinct, for a dropped
entry must not bring an older one under the same key to light.
-/
import AtMostOnce.FieldStore.Memory

namespace AtMostOnce.FieldStore

def Operation.key : Operation → String
  | .claim key _ _ | .write key _ _ | .read key => key
  | .lock key _ _ | .replace key _ _ | .delete key => key

namespace Memory

def Distinct (m : Memory) : Prop := m.entries.Distinct

variable {m : Memory} {now later : Millis} {key : String} {e : Entry}

theorem entry?_eq (h : m.Distinct) (now : Millis) (key : String) :
    m.entry? now key = (m.entries.get? key).filter (isLive now) :=
  Assoc.get?_filter h _ key

theorem entry?_isLive (h : m.Distinct) (he : m.entry? now key = some e) : isLive now e = true := by
  rw [entry?_eq h] at he
  exact (Option.filter_eq_some_iff.mp he).2

theorem entry?_filter (h : m.Distinct) (now : Millis) (key : String) :
    (m.entry? now key).filter (isLive now) = m.entry? now key := by
  rw [entry?_eq h, Option.filter_filter]
  simp

theorem isLive_of_le (hle : now ≤ later) (he : isLive later e = true) : isLive now e = true := by
  unfold isLive at he ⊢
  split
  · rename_i t ht
    rw [ht] at he
    simp only [decide_eq_true_eq] at he ⊢
    exact Int.lt_of_le_of_lt hle he
  · rfl

/-- As time passes an entry stays until it is dropped. -/
theorem entry?_later (h : m.Distinct) (hle : now ≤ later) (key : String) :
    m.entry? later key = (m.entry? now key).filter (isLive later) := by
  rw [entry?_eq h, entry?_eq h, Option.filter_filter]
  congr 1
  funext e
  by_cases he : isLive later e = true
  · rw [he, isLive_of_le hle he]
    rfl
  · simp [he]

/-! ### Operations -/

theorem live_distinct (h : m.Distinct) (now : Millis) : (m.live now).Distinct := h.filter _

theorem set_distinct {entries : Assoc String Entry} (h : entries.Distinct) (key : String)
    (e? : Option Entry) : (set entries key e?).Distinct := by
  cases e? with
  | none => exact h
  | some e => exact h.insert key e

theorem answer_distinct (h : m.Distinct) (now : Millis) (op : Operation) :
    (answer now op m).2.Distinct := by
  have hlive := live_distinct h now
  cases op with
  | claim key field value =>
    rw [answer_claim]
    split
    · exact hlive
    · exact hlive.insert _ _
  | write key fields ttl =>
    rw [answer_write]
    split
    · exact h
    · exact set_distinct hlive _ _
  | read key => exact hlive
  | lock key token ttl =>
    rw [answer_lock]
    split
    · exact hlive
    · exact hlive.insert _ _
  | replace key fields ttl => exact set_distinct (hlive.erase _) _ _
  | delete key => exact hlive.erase _

theorem entry?_of_live {m' : Memory} (h : m.Distinct) (hm : m'.entries = m.live now)
    (key : String) : m'.entry? now key = m.entry? now key := by
  have h' : m'.Distinct := by
    unfold Distinct
    rw [hm]
    exact live_distinct h now
  rw [entry?_eq h', hm]
  exact entry?_filter h now key

/-- What is put under a key is there, unless its time has come already. -/
theorem entry?_of_set {m' : Memory} {key' : String} (h : m.Distinct) (put : Option Entry)
    (hm : m'.entries = set (m.live now) key' put) (key : String) :
    m'.entry? now key =
      if key' = key then (put.or (m.entry? now key)).filter (isLive now) else m.entry? now key := by
  cases put with
  | none =>
    rw [entry?_of_live h hm, Option.none_or, entry?_filter h, ite_self]
  | some e =>
    have h' : m'.Distinct := by
      unfold Distinct
      rw [hm]
      exact set_distinct (live_distinct h now) _ _
    rw [entry?_eq h', hm]
    show (((m.live now).insert key' e).get? key).filter (isLive now) = _
    rw [Assoc.get?_insert]
    split
    · rfl
    · exact entry?_filter h now key

theorem entry?_of_erase {m' : Memory} {key' : String} (h : m.Distinct) (put : Option Entry)
    (hm : m'.entries = set ((m.live now).erase key') key' put) (key : String) :
    m'.entry? now key =
      if key' = key then put.filter (isLive now) else m.entry? now key := by
  have h' : m'.Distinct := by
    unfold Distinct
    rw [hm]
    exact set_distinct ((live_distinct h now).erase key') _ _
  rw [entry?_eq h', hm]
  cases put with
  | none =>
    show (((m.live now).erase key').get? key).filter (isLive now) = _
    rw [Assoc.get?_erase]
    split
    · rfl
    · exact entry?_filter h now key
  | some e =>
    show ((((m.live now).erase key').insert key' e).get? key).filter (isLive now) = _
    rw [Assoc.get?_insert, Assoc.get?_erase]
    split
    · rfl
    · exact entry?_filter h now key

/-! ### Operations on a key -/

/-- An operation leaves the entries under all other keys. -/
theorem entry?_answer_of_ne (h : m.Distinct) {op : Operation} (hop : op.key ≠ key) :
    entry? (answer now op m).2 now key = m.entry? now key := by
  cases op with
  | claim key' field value =>
    rw [answer_claim]
    split
    · exact entry?_of_live h rfl key
    · exact (entry?_of_set h (some _) rfl key).trans (if_neg hop)
  | write key' fields ttl =>
    rw [answer_write]
    split
    · rfl
    · exact (entry?_of_set h _ rfl key).trans (if_neg hop)
  | read key' => exact entry?_of_live h rfl key
  | lock key' token ttl =>
    rw [answer_lock]
    split
    · exact entry?_of_live h rfl key
    · exact (entry?_of_set h (some _) rfl key).trans (if_neg hop)
  | replace key' fields ttl => exact (entry?_of_erase h _ rfl key).trans (if_neg hop)
  | delete key' => exact (entry?_of_erase h none rfl key).trans (if_neg hop)

theorem claim_answered (m : Memory) (now : Millis) (key field value : String) :
    ∃ granted, (answer now (.claim key field value) m).1 = .ok granted := by
  rw [answer_claim]
  split
  · exact ⟨false, rfl⟩
  · exact ⟨true, rfl⟩

/-- A claim is refused for a field that is there, and leaves the entry. -/
theorem claim_refused {field value : String} (h : m.Distinct)
    (ha : (answer now (.claim key field value) m).1 = .ok false) :
    (∃ e, m.entry? now key = some e ∧ e.fields.get? field ≠ none) ∧
      entry? (answer now (.claim key field value) m).2 now key = m.entry? now key := by
  rw [answer_claim] at ha ⊢
  split at ha
  · rename_i v hv
    refine ⟨?_, entry?_of_live h rfl key⟩
    cases he : m.entry? now key with
    | none =>
      rw [show (m.live now).get? key = none from he] at hv
      cases hv
    | some e =>
      rw [show (m.live now).get? key = some e from he] at hv
      refine ⟨e, rfl, ?_⟩
      rw [show e.fields.get? field = some v from hv]
      exact Option.some_ne_none v
  · cases ha

/-- A granted claim puts its field into the entry, which had none under that name. -/
theorem claim_granted {field value : String} (h : m.Distinct)
    (ha : (answer now (.claim key field value) m).1 = .ok true) :
    ∃ e, e = (m.entry? now key).getD ⟨[], none⟩ ∧ e.fields.get? field = none ∧
      entry? (answer now (.claim key field value) m).2 now key =
        some { e with fields := e.fields.insert field value } := by
  refine ⟨_, rfl, ?_⟩
  rw [answer_claim] at ha ⊢
  split at ha
  · cases ha
  · rename_i hnone
    refine ⟨hnone, ?_⟩
    rw [entry?_of_set h (some _) rfl key, if_pos rfl, Option.some_or, Option.filter_some,
      if_pos]
    · rfl
    -- a claim does not touch the time at which the entry is dropped
    cases he : m.entry? now key with
    | none =>
      rw [show (m.live now).get? key = none from he]
      rfl
    | some e =>
      have hlive := entry?_isLive h he
      rw [show (m.live now).get? key = some e from he]
      unfold isLive at hlive ⊢
      exact hlive

/-- A write puts its fields into the entry, if it does anything. -/
theorem write_fields {fields : Fields} {ttl : Option Int} {e' : Entry} (h : m.Distinct)
    (he : m.entry? now key = some e)
    (he' : entry? (answer now (.write key fields ttl) m).2 now key = some e') :
    e'.fields = e.fields ∨ e'.fields = e.fields.insertAll fields := by
  rw [answer_write] at he'
  split at he'
  · change m.entry? now key = some e' at he'
    rw [he] at he'
    cases he'
    exact .inl rfl
  · rw [entry?_of_set h _ rfl key, if_pos rfl] at he'
    obtain ⟨hor, -⟩ := Option.filter_eq_some_iff.mp he'
    rw [he] at hor
    unfold written at hor
    cases fields with
    | nil =>
      left
      cases ttl <;> cases hor <;> rfl
    | cons f fs =>
      right
      cases ttl <;> cases hor <;> rfl

theorem entry?_replace (h : m.Distinct) (now : Millis) (key : String) (fields : Fields)
    (ttl : Option Int) :
    entry? (answer now (.replace key fields ttl) m).2 now key =
      (written now none fields ttl).filter (isLive now) :=
  (entry?_of_erase h (written now none fields ttl) rfl key).trans (if_pos rfl)

theorem replace_fields {fields : Fields} {ttl : Option Int} {e' : Entry} (h : m.Distinct)
    (he' : entry? (answer now (.replace key fields ttl) m).2 now key = some e') :
    e'.fields = Assoc.insertAll [] fields := by
  rw [entry?_replace h] at he'
  obtain ⟨hw, -⟩ := Option.filter_eq_some_iff.mp he'
  unfold written at hw
  cases fields with
  | nil => cases ttl <;> cases hw
  | cons f fs => cases ttl <;> cases hw <;> rfl

theorem entry?_write (h : m.Distinct) (sound : m.writeFails = false) (now : Millis) (key : String)
    (fields : Fields) (ttl : Option Int) :
    entry? (answer now (.write key fields ttl) m).2 now key =
      ((written now (m.entry? now key) fields ttl).or (m.entry? now key)).filter (isLive now) := by
  rw [answer_write, if_neg (by rw [sound]; nofun)]
  exact (entry?_of_set h _ rfl key).trans (if_pos rfl)

theorem entry?_read (h : m.Distinct) (now : Millis) (key key' : String) :
    entry? (answer now (.read key') m).2 now key = m.entry? now key :=
  entry?_of_live h rfl key

/-- A lock is refused for a key that holds something, and leaves the entry. -/
theorem lock_refused {token : String} {ttl : Int} (h : m.Distinct)
    (held : m.entry? now key ≠ none) :
    (answer now (.lock key token ttl) m).1 = .ok false ∧
      entry? (answer now (.lock key token ttl) m).2 now key = m.entry? now key := by
  obtain ⟨e, he⟩ := Option.ne_none_iff_exists'.mp held
  rw [answer_lock, show (m.live now).get? key = some e from he]
  exact ⟨rfl, entry?_of_live h rfl key⟩

/-- A lock that is granted is there until its seconds are over. -/
theorem lock_granted {token : String} {ttl : Int} (h : m.Distinct) (free : m.entry? now key = none)
    (lasts : now < ahead now ttl) :
    (answer now (.lock key token ttl) m).1 = .ok true ∧
      entry? (answer now (.lock key token ttl) m).2 now key ≠ none := by
  rw [answer_lock, show (m.live now).get? key = none from free]
  refine ⟨rfl, ?_⟩
  rw [entry?_of_set h (some _) rfl key, if_pos rfl, Option.some_or, Option.filter_some,
    if_pos (by simpa [isLive] using lasts)]
  nofun

/-! ### A server that does not fail -/

theorem writeFails_answer (sound : m.writeFails = false) (now : Millis) (op : Operation) :
    (answer now op m).2.writeFails = false := by
  cases op with
  | claim key field value =>
    rw [answer_claim]
    split <;> exact sound
  | write key fields ttl =>
    rw [answer_write, if_neg (by rw [sound]; nofun)]
    exact sound
  | lock key token ttl =>
    rw [answer_lock]
    split <;> exact sound
  | read _ => exact sound
  | replace _ _ _ => exact sound
  | delete _ => exact sound

theorem answer_ok (sound : m.writeFails = false) (now : Millis) (op : Operation) :
    ∃ v, (answer now op m).1 = .ok v := by
  cases op with
  | claim key field value => exact (claim_answered m now key field value).imp fun _ => id
  | write key fields ttl =>
    rw [answer_write, if_neg (by rw [sound]; nofun)]
    exact ⟨(), rfl⟩
  | lock key token ttl =>
    rw [answer_lock]
    split <;> exact ⟨_, rfl⟩
  | read _ => exact ⟨_, rfl⟩
  | replace _ _ _ => exact ⟨(), rfl⟩
  | delete _ => exact ⟨(), rfl⟩

end Memory

end AtMostOnce.FieldStore
