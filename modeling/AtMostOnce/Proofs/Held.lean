/-
Records that hold their key.

A record that is found and may not be replaced stands in the way of claims: a claim of its
key is refused, whichever ledger keeps it, and so long as nobody completes or removes the
record, the same is found under the key as before.  On a server of fields that is to be said
of every time from now on, since what is found is worked out anew from the time to live.

What is found after a completion is the completed record, with the digest that it was
claimed with.
-/
import AtMostOnce.PayloadCheck
import AtMostOnce.Proofs.Store

namespace AtMostOnce

/-- A digest agrees with what is stored of it. -/
theorem PayloadCheck.agrees_nonEmptyHash (digest : String) :
    agrees ((Record.nonEmptyHash (some digest)).getD "") digest = true := by
  by_cases h : digest.isEmpty = true
  · simp [agrees, h]
  · simp [agrees, Record.nonEmptyHash, h]

namespace Ledger

open Fields (Derived)

/-! ### A server of fields -/

namespace Fields

section

variable {names : FieldNames} {m m' : FieldStore.Memory} {now time : Millis} {token : String}
  {k : Key} {r r' : Record}

/-- What is found depends on the entry of the key. -/
theorem find_congr (same : m'.entry? now k.text = m.entry? now k.text) :
    (alone now token (find names k) m').1 = (alone now token (find names k) m).1 := by
  rw [alone_find, alone_find, FieldStore.Memory.fields?, FieldStore.Memory.fields?,
    FieldStore.Memory.ttl_eq, FieldStore.Memory.ttl_eq, same]

/-- What is found is made of the fields of an entry. -/
theorem find_fields (hfound : (alone now token (find names k) m).1 = .ok r) :
    ∃ e, m.entry? now k.text = some e ∧ e.fields.isEmpty = false ∧
      recordAt names k now e.fields (m.ttl now k.text) = .ok r := by
  obtain ⟨e, he, -⟩ := find_ok hfound
  rw [alone_find, FieldStore.Memory.fields?, he, Option.map_some, Option.getD_some] at hfound
  dsimp only at hfound
  split at hfound
  · cases hfound
  · rename_i hfilled
    exact ⟨e, he, by simpa using hfilled, hfound⟩

theorem recordAt_ok {fields : FieldStore.Fields} {ttl : Int}
    (h : recordAt names k now fields ttl = .ok r) :
    Status.parse ((fields.get? names.status).getD "") = .ok r.status ∧
      r.data = fields.get? names.data ∧
      r.payloadHash = Record.nonEmptyHash (fields.get? names.payloadHash) := by
  unfold recordAt at h
  split at h
  · cases h
  · rename_i hparse
    cases h
    exact ⟨hparse, rfl, rfl⟩

/-- A record that may not be replaced blocks the claims of its key. -/
theorem blocksAt_of_find (hfound : (alone now token (find names k) m).1 = .ok r)
    (stays : r.isReplaceable now = false) :
    ∃ e, m.entry? now k.text = some e ∧ e.fields.get? names.status ≠ none ∧
      blocksAt names k now e.fields (m.ttl now k.text) = true := by
  obtain ⟨e, he, hfilled, hrecord⟩ := find_fields hfound
  refine ⟨e, he, fun hnone => ?_, ?_⟩
  · rw [recordAt, hnone] at hrecord
    cases hrecord
  · rw [blocksAt, hrecord, hfilled]
    simp [stays]

/-- What is found after a completion, then or later, is made of the fields that it has written. -/
theorem found_of_complete (h : m.Sound) (hle : now ≤ time)
    (hfound : (alone time token (find names r.key) (FieldStore.Memory.answer now
      (.write r.key.text (completedFields names r) (ttlAt now r)) m).2).1 = .ok r') :
    ∃ fields ttl, recordAt names r.key time
      (Assoc.insertAll fields (completedFields names r)) ttl = .ok r' := by
  obtain ⟨e, he, -, hrecord⟩ := find_fields hfound
  rw [FieldStore.Memory.entry?_later (h.answer now _).distinct hle] at he
  obtain ⟨fields, hfields⟩ := fields_of_complete h (Option.filter_eq_some_iff.mp he).1
  rw [hfields] at hrecord
  exact ⟨fields, _, hrecord⟩

theorem payloadHash_insertAll {digest : String} (fields : FieldStore.Fields)
    (hhash : r.payloadHash = some digest) :
    Assoc.get? (Assoc.insertAll fields (completedFields names r)) names.payloadHash =
      some digest := by
  simp [completedFields, hhash, Assoc.insertAll, Assoc.get?_insert]

end

end Fields

/-! ### Ledgers of either kind -/

namespace Store

variable {s s' : Store} {now time : Millis} {token : String} {k : Key} {q : Request}
  {r r' : Record} {digest : String}

/-- The same is found under the key, from now on. -/
def Shows (s s' : Store) (now : Millis) (k : Key) : Prop :=
  ∀ t, now ≤ t → s'.find? t k = s.find? t k

/-- A record is found under the key that may not be replaced. -/
def Blocks (s : Store) (now : Millis) (k : Key) : Prop :=
  ∃ r, s.find? now k = .ok r ∧ r.isReplaceable now = false

theorem shows_memory {records records' : Memory} (same : records'.get? k = records.get? k) :
    (memory records).Shows (memory records') now k := by
  intro t _
  rw [find?_memory, find?_memory, same]

theorem shows_fields {names : FieldNames} {server server' : FieldStore.Memory}
    (h : server.Sound) (h' : server'.Sound)
    (same : server'.entry? now k.text = server.entry? now k.text) :
    (fields names server).Shows (fields names server') now k := by
  intro t hle
  refine Fields.find_congr ?_
  rw [FieldStore.Memory.entry?_later h.distinct hle, FieldStore.Memory.entry?_later h'.distinct hle,
    same]

/-- A request about another derived key changes nothing under the key. -/
theorem shows_other (h : s.Sound) (hk : Derived k) (hq : Derived q.key) (hne : q.key ≠ k) :
    s.Shows (s.answer now token q).2 now k := by
  cases s with
  | memory records => exact shows_memory (Memory.get?_answer_of_ne hne)
  | fields names server =>
    exact shows_fields h (Fields.sound_alone h now token _)
      (Fields.entry?_perform_other h token hk hq hne (.inl rfl))

/-- Finding a record changes nothing. -/
theorem shows_find (h : s.Sound) : s.Shows (s.answer now token (.find k)).2 now k := by
  cases s with
  | memory records =>
    refine shows_memory ?_
    rw [Memory.answer]
    split <;> rfl
  | fields names server =>
    refine shows_fields h (Fields.sound_alone h now token _) ?_
    show FieldStore.Memory.entry? (Fields.alone now token (Fields.find names k) server).2 now _ = _
    rw [Fields.alone_find, FieldStore.Memory.entry?_read h.distinct]

/-- **A claim of a key that is held is refused, and changes nothing.** -/
theorem Blocks.claim (h : s.Sound) (blocks : s.Blocks now r.key) (token : String) :
    (s.answer now token (.claim r)).1 = .ok .conflict ∧
      s.Shows (s.answer now token (.claim r)).2 now r.key := by
  obtain ⟨held, hfound, stays⟩ := blocks
  cases s with
  | memory records =>
    rw [find?_memory] at hfound
    split at hfound
    · rename_i hget
      cases hfound
      have hclaim : Memory.answer now (.claim r) records = (.ok .conflict, records) := by
        rw [Memory.answer, Memory.isFree, hget]
        exact if_neg (by simp [stays])
      refine ⟨congrArg Prod.fst hclaim, shows_memory ?_⟩
      rw [hclaim]
    · cases hfound
  | fields names server =>
    obtain ⟨e, he, hstatus, hblocks⟩ := Fields.blocksAt_of_find hfound stays
    obtain ⟨server', h', same, hclaim⟩ := Fields.alone_claim_refused h token he hstatus
    rw [if_pos hblocks] at hclaim
    have hleft : (Fields.alone now token (Fields.perform names (.claim r)) server).2 = server' :=
      congrArg Prod.snd hclaim
    refine ⟨congrArg Prod.fst hclaim, shows_fields h (Fields.sound_alone h now token _) ?_⟩
    rw [hleft]
    exact same _

theorem Distinct.of_answer (h : (s.answer now token q).2.Distinct) : s.Distinct := by
  cases s with
  | memory records => trivial
  | fields names server => exact h

/-- What is found after a completion has the digest that its record was claimed with. -/
theorem agrees_of_complete (h : s.Sound)
    (hhash : r.payloadHash = Record.nonEmptyHash (some digest)) (hle : now ≤ time)
    (hfound : (s.answer now token (.complete r)).2.find? time r.key = .ok r') :
    PayloadCheck.agrees (r'.payloadHash.getD "") digest = true := by
  by_cases hempty : digest.isEmpty = true
  · simp [PayloadCheck.agrees, hempty]
  · have hsome : r.payloadHash = some digest := by simp [hhash, Record.nonEmptyHash, hempty]
    have hfound' : r'.payloadHash = some digest := by
      cases s with
      | memory records =>
        rw [show (memory records).answer now token (.complete r) =
          (.ok (), .memory (records.put r)) from rfl, find?_memory, Memory.get?_put] at hfound
        cases hfound
        exact hsome
      | fields names server =>
        obtain ⟨fields, ttl, hrecord⟩ := Fields.found_of_complete h hle
          (by rw [← Fields.alone_complete]; exact hfound)
        rw [(Fields.recordAt_ok hrecord).2.2, Fields.payloadHash_insertAll fields hsome,
          ← hhash, hsome]
    simp [PayloadCheck.agrees, hfound']

/-- What is found after a completion is the completed record with its result. -/
theorem completed_of_complete (h : s.Sound) (distinct : s.Distinct) (hr : r.status = .completed)
    {text : String} (hdata : r.data = some text) (hle : now ≤ time)
    (hfound : (s.answer now token (.complete r)).2.find? time r.key = .ok r') :
    r'.status = .completed ∧ r'.data = some text := by
  cases s with
  | memory records =>
    rw [show (memory records).answer now token (.complete r) =
      (.ok (), .memory (records.put r)) from rfl, find?_memory, Memory.get?_put] at hfound
    cases hfound
    exact ⟨hr, hdata⟩
  | fields names server =>
    obtain ⟨fields, ttl, hrecord⟩ := Fields.found_of_complete h hle
      (by rw [← Fields.alone_complete]; exact hfound)
    obtain ⟨hparse, hdata', -⟩ := Fields.recordAt_ok hrecord
    obtain ⟨hstatus, hcompleted, -⟩ := Fields.fields_completed distinct r fields
    rw [hstatus, Option.getD_some, Status.parse_name] at hparse
    rw [hdata', hcompleted, hdata]
    exact ⟨(Except.ok.inj hparse).symm, rfl⟩

end Store

end Ledger

end AtMostOnce
