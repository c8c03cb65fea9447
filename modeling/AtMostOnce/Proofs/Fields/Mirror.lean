/-
One history over two ledgers.

The ledger in memory keeps whole records and judges their expiry by comparison; the server
keeps fields, merges them on completion, drops a key by its time to live and tells the
expiry by rounding.  While no deadline passes, and outside of the second in which the
server drops a record that memory still counts, one is the mirror of the other: every
request keeps `Mirror`, and so does the time that passes (`Mirror.later`).
-/
import AtMostOnce.Ledger.Memory
import AtMostOnce.Proofs.Fields.Alone

namespace AtMostOnce.Ledger.Fields

open FieldStore

variable {names : FieldNames} {now : Int} {key : Key} {r : Record} {e : Entry}

/-! ### Points in time -/

/-- The record counts before its last second, and a claim has not lost its deadline. -/
structure InForce (now : Int) (r : Record) : Prop where
  expiry : ∃ expiry : Int, r.expiry = some expiry ∧ now < expiry * 1000
  deadline : r.status = .inProgress → ∀ d : Int, r.deadline = some d → now ≤ d

/-- The last second of the record is over. -/
def Over (now : Int) (r : Record) : Prop :=
  ∃ expiry : Int, r.expiry = some expiry ∧ (expiry + 1) * 1000 ≤ now

theorem Over.isExpired (h : Over now r) : r.isExpired (secondsOf now) = true := by
  obtain ⟨expiry, hexpiry, hover⟩ := h
  unfold Record.isExpired secondsOf
  rw [hexpiry]
  refine decide_eq_true ?_
  show expiry < now / 1000
  omega

theorem InForce.not_isExpired (h : InForce now r) : r.isExpired (secondsOf now) = false := by
  obtain ⟨expiry, hexpiry, hlt⟩ := h.expiry
  unfold Record.isExpired secondsOf
  rw [hexpiry]
  refine decide_eq_false ?_
  show ¬ expiry < now / 1000
  omega

theorem InForce.not_isReplaceable (h : InForce now r) : r.isReplaceable now = false := by
  unfold Record.isReplaceable
  rw [h.not_isExpired, Bool.false_or, Bool.and_eq_false_iff]
  by_cases hst : r.status = .inProgress
  · right
    unfold Record.isOverdue
    cases hd : r.deadline with
    | none => rfl
    | some d => simpa using h.deadline hst d hd
  · left
    simpa using hst

/-! ### Copies of records -/

/-- What the server keeps of a record: its fields, and the drop in the second after the last one in
which the record counts. -/
structure Copy (names : FieldNames) (key : Key) (now : Int) (r : Record) (e : Entry) :
    Prop where
  key : r.key = key
  status : e.fields.get? names.status = some r.status.name
  deadline : r.status = .inProgress → deadline? names e.fields = r.deadline
  data : e.fields.get? names.data = r.data
  payloadHash : Record.nonEmptyHash (e.fields.get? names.payloadHash) = r.payloadHash
  dropAt : ∃ expiry part : Int, r.expiry = some expiry ∧ 0 ≤ part ∧ part < 1000 ∧
    e.dropAt = some (expiry * 1000 + part) ∧ Word.InRange (expiry * 1000 + part) ∧
    expiry * 1000 + part - now ≤ 9223372036854775000

namespace Copy

variable {later : Int}

theorem stays (h : Copy names key now r e) (hle : now ≤ later) : Copy names key later r e where
  key := h.key
  status := h.status
  deadline := h.deadline
  data := h.data
  payloadHash := h.payloadHash
  dropAt := by
    obtain ⟨expiry, part, hexpiry, hpos, hlt, hdrop, hrange, hsoon⟩ := h.dropAt
    exact ⟨expiry, part, hexpiry, hpos, hlt, hdrop, hrange, by omega⟩

theorem isLive (h : Copy names key now r e) (hr : InForce later r) :
    Memory.isLive later e = true := by
  obtain ⟨expiry, part, hexpiry, hpos, -, hdrop, -⟩ := h.dropAt
  obtain ⟨expiry', hexpiry', hlt⟩ := hr.expiry
  rw [hexpiry] at hexpiry'
  cases hexpiry'
  unfold Memory.isLive
  rw [hdrop]
  refine decide_eq_true ?_
  show later < expiry * 1000 + part
  omega

theorem not_isLive (h : Copy names key now r e) (hr : Over later r) :
    Memory.isLive later e = false := by
  obtain ⟨expiry, part, hexpiry, -, hpart, hdrop, -⟩ := h.dropAt
  obtain ⟨expiry', hexpiry', hle⟩ := hr
  rw [hexpiry] at hexpiry'
  cases hexpiry'
  unfold Memory.isLive
  rw [hdrop]
  refine decide_eq_false ?_
  show ¬ later < expiry * 1000 + part
  omega

theorem blocking (h : Copy names key now r e) (hr : InForce now r) :
    Blocking names now e.fields := by
  refine ⟨r.status, ?_, ?_⟩
  · rw [h.status]
    exact Status.parse_name r.status
  · rintro ⟨hst, d, hd, hlt⟩
    rw [h.deadline hst] at hd
    exact absurd hlt (Int.not_lt.mpr (hr.deadline hst d hd))

end Copy

/-- Two records under one key that differ by a second at most in their expiry, and by the deadline
only when they are completed. -/
structure Alike (r r' : Record) : Prop where
  key : r.key = r'.key
  status : r.status = r'.status
  data : r.data = r'.data
  payloadHash : r.payloadHash = r'.payloadHash
  expiry : ∃ expiry expiry' : Int, r.expiry = some expiry ∧ r'.expiry = some expiry' ∧
    expiry ≤ expiry' + 1 ∧ expiry' ≤ expiry + 1
  deadline : r.status = .inProgress → r.deadline = r'.deadline

/-- What is made of a copy while it is there: its expiry comes out at that of the record or next to
it, and not before the present second. -/
theorem Copy.made (h : Copy names key now r e) {m : FieldStore.Memory} (hm : m.Sound)
    (he : m.entry? now key.text = some e) :
    ∃ expiry shown : Int, r.expiry = some expiry ∧
      recordAt names key now e.fields (m.ttl now key.text) =
        .ok { r with expiry := some shown, deadline := deadline? names e.fields } ∧
      secondsOf now ≤ shown ∧ shown ≤ expiry + 1 ∧ expiry ≤ shown + 1 := by
  obtain ⟨expiry, part, hexpiry, hpos, hpart, hdrop, hrange, hsoon⟩ := h.dropAt
  have hlive := Memory.entry?_isLive hm.distinct he
  rw [Memory.isLive, hdrop] at hlive
  obtain ⟨hleft, shown, hshown, hbounds⟩ := Memory.secondsUntil_shown ⟨hpos, hpart⟩ hrange
    (of_decide_eq_true hlive) hsoon
  refine ⟨expiry, shown, hexpiry, ?_, hbounds⟩
  have httl : m.ttl now key.text = Memory.secondsUntil now (expiry * 1000 + part) := by
    rw [Memory.ttl_eq, he]
    obtain ⟨fields, dropAt⟩ := e
    dsimp only at hdrop
    rw [hdrop]
  unfold recordAt
  rw [h.status, httl, Option.getD_some, Status.parse_name]
  simp only [if_pos hleft, hshown, h.data, h.payloadHash, ← h.key]

theorem Copy.read (h : Copy names key now r e) {m : FieldStore.Memory} (hm : m.Sound)
    (he : m.entry? now key.text = some e) :
    ∃ r', recordAt names key now e.fields (m.ttl now key.text) = .ok r' ∧ Alike r' r := by
  obtain ⟨expiry, shown, hexpiry, hmade, -, hle, hle'⟩ := h.made hm he
  exact ⟨_, hmade,
    { key := rfl
      status := rfl
      data := rfl
      payloadHash := rfl
      expiry := ⟨shown, expiry, rfl, hexpiry, hle, hle'⟩
      deadline := h.deadline }⟩

/-! ### Records as they are written -/

/-- A record as a call claims it. -/
structure Claimable (now : Int) (r : Record) : Prop extends Lasting now r where
  status : r.status = .inProgress
  range : ∀ d, r.deadline = some d → Word.InRange d
  data : r.data = none
  payloadHash : r.payloadHash ≠ some ""

/-- A record as a call completes what is stored with it. -/
structure Completing (now : Int) (stored : Option Record) (r : Record) : Prop
    extends Lasting now r where
  status : r.status = .completed
  finished : r.deadline = none
  data : r.data ≠ none
  payloadHash : r.payloadHash ≠ some ""
  same : ∀ old, stored = some old → r.payloadHash = old.payloadHash

/-- A record in progress, whatever has become of its deadline. -/
structure Begun (now : Int) (r : Record) : Prop where
  counts : Counts now r
  status : r.status = .inProgress
  range : ∀ d, r.deadline = some d → Word.InRange d
  data : r.data = none
  payloadHash : r.payloadHash ≠ some ""

/-- A completed record, whatever was stored before. -/
structure Ended (now : Int) (r : Record) : Prop where
  counts : Counts now r
  status : r.status = .completed
  data : r.data ≠ none
  payloadHash : r.payloadHash ≠ some ""

theorem Claimable.begun (h : Claimable now r) : Begun now r :=
  ⟨h.counts, h.status, h.range, h.data, h.payloadHash⟩

theorem Completing.ended {stored : Option Record} (h : Completing now stored r) : Ended now r :=
  ⟨h.counts, h.status, h.data, h.payloadHash⟩

theorem Lasting.inForce (h : Lasting now r) : InForce now r := by
  obtain ⟨expiry, hexpiry, hlt, -⟩ := h.expiry
  refine ⟨⟨expiry, hexpiry, ?_⟩, fun _ d hd => h.deadline d hd⟩
  have hseconds : now / 1000 < expiry := hlt
  omega

/-- The server drops a record in the second after its last one. -/
theorem Counts.dropAt (h : Counts now r) :
    ∃ expiry part : Int, r.expiry = some expiry ∧ 0 ≤ part ∧ part < 1000 ∧
      (Fields.ttlAt now r).map (Memory.ahead now) = some (expiry * 1000 + part) ∧
      Word.InRange (expiry * 1000 + part) ∧ expiry * 1000 + part - now ≤ 9223372036854775000 := by
  obtain ⟨expiry, hexpiry, httl, hpos, hfits⟩ := h.ttlAt
  obtain ⟨hrange, hsum⟩ := hfits
  have hdrop : now + (expiry - now / 1000) * 1000 = expiry * 1000 + now % 1000 := by omega
  refine ⟨expiry, now % 1000, hexpiry, by omega, by omega, ?_, hdrop ▸ hsum, ?_⟩
  · rw [httl, Option.map_some, Memory.ahead_eq ⟨hrange, hsum⟩]
    exact congrArg some hdrop
  · rw [← hdrop]
    unfold Word.InRange Word.least Word.greatest secondsOf at hrange
    omega

/-- What is under the key once a record was completed. -/
def completedEntry (names : FieldNames) (now : Millis) (held : Option Entry) (r : Record) : Entry :=
  ⟨(held.getD ⟨[], none⟩).fields.insertAll (completedFields names r),
    (ttlAt now r).map (Memory.ahead now)⟩

section

variable (hnames : Distinct names)

include hnames

theorem Begun.deadline (h : Begun now r) :
    deadline? names (entryOf names now r).fields = r.deadline := by
  rw [deadline?, entryOf, deadline_orphanFields hnames]
  cases hd : r.deadline with
  | none => rfl
  | some d =>
    show Word.ofSignedDigits? (Text.decimal d).toList = some d
    rw [Word.ofSignedDigits?_decimal, if_pos (h.range d hd)]

theorem Begun.copy (h : Begun now r) : Copy names r.key now r (entryOf names now r) where
  key := rfl
  status := by
    rw [entryOf, status_orphanFields hnames, h.status]
  deadline _ := h.deadline hnames
  data := by rw [entryOf, data_orphanFields hnames, h.data]
  payloadHash := by
    rw [entryOf, payloadHash_orphanFields hnames, Record.nonEmptyHash_eq h.payloadHash]
  dropAt := h.counts.dropAt

/-- A completion leaves a copy if it has a digest or none is left. -/
theorem Ended.copy {held : Option Entry} (h : Ended now r)
    (same : r.payloadHash = none → ∀ e, held = some e →
      Record.nonEmptyHash (e.fields.get? names.payloadHash) = none) :
    Copy names r.key now r (completedEntry names now held r) := by
  obtain ⟨hstatus, hdata, hhash⟩ :=
    fields_completed hnames r (held.getD ⟨[], none⟩).fields
  refine ⟨rfl, ?_, ?_, ?_, ?_, h.counts.dropAt⟩
  · rw [h.status]
    exact hstatus
  · intro hst
    rw [h.status] at hst
    cases hst
  · obtain ⟨text, htext⟩ := Option.ne_none_iff_exists'.mp h.data
    rw [htext] at hdata ⊢
    exact hdata
  · rw [completedEntry, hhash]
    cases hr : r.payloadHash with
    | some text =>
      rw [Option.some_or, Record.nonEmptyHash_eq (hr ▸ h.payloadHash)]
    | none =>
      rw [Option.none_or]
      cases held with
      | none => rfl
      | some e => exact same hr e rfl

end

/-- What a completion leaves under its key. -/
theorem entry?_complete {m : FieldStore.Memory} (names : FieldNames) (token : String) (h : m.Sound)
    (hr : Counts now r) :
    Memory.entry? (alone now token (perform names (.complete r)) m).2 now r.key.text =
      some (completedEntry names now (m.entry? now r.key.text) r) := by
  rw [alone_complete, Memory.entry?_write h.distinct h.writes]
  have hwritten : Memory.written now (m.entry? now r.key.text) (completedFields names r)
      (ttlAt now r) = some (completedEntry names now (m.entry? now r.key.text) r) := by
    obtain ⟨expiry, -, httl, -⟩ := hr.ttlAt
    unfold Memory.written completedEntry
    rw [httl]
    rfl
  rw [hwritten, Option.some_or, Option.filter_some, if_pos]
  exact hr.isLive _

/-! ### The mirror -/

/-- What memory stores under a key and what the server holds there, at a point in time. -/
inductive Mirror (names : FieldNames) (key : Key) (now : Int) :
    Option Record → Option Entry → Prop
  | vacant : Mirror names key now none none
  | lapsed (r : Record) (hr : Over now r) : Mirror names key now (some r) none
  | held (r : Record) (e : Entry) (hr : InForce now r) (copy : Copy names key now r e) :
    Mirror names key now (some r) (some e)

/-- The mirror holds while time passes, up to a point at which the record counts or is over. -/
theorem Mirror.later {m : FieldStore.Memory} {stored : Option Record} {later : Int}
    (h : Mirror names key now stored (m.entry? now key.text)) (hm : m.Sound) (hle : now ≤ later)
    (clear : ∀ r, stored = some r → InForce later r ∨ Over later r) :
    Mirror names key later stored (m.entry? later key.text) := by
  rw [Memory.entry?_later hm.distinct hle]
  generalize m.entry? now key.text = held at h
  cases h with
  | vacant => exact .vacant
  | lapsed r hr =>
    obtain ⟨expiry, hexpiry, hover⟩ := hr
    exact .lapsed r ⟨expiry, hexpiry, Int.le_trans hover hle⟩
  | held r e hr copy =>
    rw [Option.filter_some]
    rcases clear r rfl with hforce | hover
    · rw [if_pos (copy.isLive hforce)]
      exact .held r e hforce (copy.stays hle)
    · rw [if_neg (by rw [copy.not_isLive hover]; nofun)]
      exact .lapsed r hover

section

variable {m : FieldStore.Memory} {l : Ledger.Memory} {token : String}

theorem Mirror.claim (h : Mirror names r.key now (l.get? r.key) (m.entry? now r.key.text))
    (hm : m.Sound) (hnames : Distinct names) (hnow : Word.InRange now) (hr : Claimable now r) :
    (alone now token (Fields.claim names r) m).1 = (l.answer now (.claim r)).1 ∧
      Mirror names r.key now (Assoc.get? (l.answer now (.claim r)).2 r.key)
        (Memory.entry? (alone now token (Fields.claim names r) m).2 now r.key.text) := by
  have created : l.isFree r.key now = true → m.entry? now r.key.text = none →
      (alone now token (Fields.claim names r) m).1 = (l.answer now (.claim r)).1 ∧
        Mirror names r.key now (Assoc.get? (l.answer now (.claim r)).2 r.key)
          (Memory.entry? (alone now token (Fields.claim names r) m).2 now r.key.text) := by
    intro hfree hvacant
    obtain ⟨hresult, hentry⟩ := claim_vacant names token hm hr.counts hvacant
    rw [hresult, hentry, Ledger.Memory.answer, if_pos hfree]
    refine ⟨rfl, ?_⟩
    show Mirror _ _ _ (Assoc.get? (Assoc.insert l r.key r) r.key) _
    rw [Assoc.get?_insert, if_pos rfl]
    exact .held r _ hr.toLasting.inForce (hr.begun.copy hnames)
  unfold Ledger.Memory.isFree at created
  generalize hs : l.get? r.key = stored at h created
  generalize he : m.entry? now r.key.text = held at h created
  cases h with
  | vacant => exact created rfl rfl
  | lapsed old hold =>
    refine created ?_ rfl
    show old.isReplaceable now = true
    rw [Record.isReplaceable, hold.isExpired, Bool.true_or]
  | held old e hold copy =>
    obtain ⟨hresult, hentry⟩ :=
      claim_blocked token hm hnow hr.toLasting he (copy.blocking hold)
    have hfree : ¬ l.isFree r.key now = true := by
      unfold Ledger.Memory.isFree
      rw [hs]
      simp [hold.not_isReplaceable]
    rw [hresult, hentry, Ledger.Memory.answer, if_neg hfree, hs]
    exact ⟨rfl, .held old e hold copy⟩

theorem Mirror.find (h : Mirror names key now (l.get? key) (m.entry? now key.text))
    (hm : m.Sound) :
    (∃ r r', (alone now token (Fields.find names key) m).1 = .ok r' ∧
      (l.answer now (.find key)).1 = .ok r ∧ r.isExpired (secondsOf now) = false ∧ Alike r' r) ∨
    (alone now token (Fields.find names key) m).1 = .error (.itemNotFound key) ∧
      ((l.answer now (.find key)).1 = .error (.itemNotFound key) ∨
        ∃ r, (l.answer now (.find key)).1 = .ok r ∧ r.isExpired (secondsOf now) = true) := by
  rw [alone_find, Memory.fields?, Ledger.Memory.answer]
  dsimp only
  generalize hs : l.get? key = stored at h
  generalize he : m.entry? now key.text = held at h
  cases h with
  | vacant => exact .inr ⟨rfl, .inl rfl⟩
  | lapsed r hr => exact .inr ⟨rfl, .inr ⟨r, rfl, hr.isExpired⟩⟩
  | held r e hr copy =>
    obtain ⟨r', hread, halike⟩ := copy.read hm he
    refine .inl ⟨r, r', ?_, rfl, hr.not_isExpired, halike⟩
    show (if e.fields.isEmpty then _ else _) = _
    rw [if_neg]
    · exact hread
    · intro hempty
      have hstatus := copy.status
      rw [List.isEmpty_iff.mp hempty] at hstatus
      cases hstatus

theorem Mirror.complete (h : Mirror names r.key now (l.get? r.key) (m.entry? now r.key.text))
    (hm : m.Sound) (hnames : Distinct names) (hr : Completing now (l.get? r.key) r) :
    (alone now token (perform names (.complete r)) m).1 = .ok () ∧
      Mirror names r.key now (Assoc.get? (l.answer now (.complete r)).2 r.key)
        (Memory.entry? (alone now token (perform names (.complete r)) m).2 now r.key.text) := by
  refine ⟨?_, ?_⟩
  · rw [alone_complete]
    exact (Memory.answer_ok hm.writes now _).choose_spec
  · rw [entry?_complete names token hm hr.counts]
    show Mirror _ _ _ (Assoc.get? (Assoc.insert l r.key r) r.key) _
    rw [Assoc.get?_insert, if_pos rfl]
    refine .held r _ hr.toLasting.inForce (hr.ended.copy hnames fun hnone e he => ?_)
    rw [he] at h
    generalize hs : l.get? r.key = stored at h hr
    cases h with
    | held old e hold copy => rw [copy.payloadHash, ← hr.same old rfl, hnone]

theorem Mirror.remove (hm : m.Sound) :
    (alone now token (perform names (.remove key)) m).1 = .ok () ∧
      Mirror names key now (Assoc.get? (l.answer now (.remove key)).2 key)
        (Memory.entry? (alone now token (perform names (.remove key)) m).2 now key.text) := by
  have hentry : Memory.entry? (FieldStore.Memory.answer now (.delete key.text) m).2 now key.text =
      none := (Memory.entry?_of_erase hm.distinct none rfl key.text).trans (if_pos rfl)
  have hstored : Assoc.get? (l.answer now (.remove key)).2 key = none :=
    (Assoc.get?_erase l key key).trans (if_pos rfl)
  rw [alone_remove, hentry, hstored]
  exact ⟨rfl, .vacant⟩

end

/-! ### Histories -/

/-- A request at a point in time, with the token for its lock. -/
structure Call where
  time : Int
  token : String
  request : Ledger.Request

/-- The records in memory after some calls. -/
def records (calls : List Call) : Ledger.Memory :=
  calls.foldl (fun l c => (l.answer c.time c.request).2) []

/-- The server after some calls. -/
def served (names : FieldNames) (calls : List Call) : FieldStore.Memory :=
  calls.foldl (fun m c => (alone c.time c.token (perform names c.request) m).2) .empty

/-- A record of a call is one that a call makes at that point in time. -/
def Proper (now : Int) (stored : Option Record) : Ledger.Request → Prop
  | .claim r => Claimable now r
  | .complete r => Completing now stored r
  | .find _ | .remove _ => True

/-- What may come next: a call about the key, not before the others, at which the stored record
either counts or is over. -/
structure Next (key : Key) (calls : List Call) (c : Call) : Prop where
  about : c.request.key = key
  range : Word.InRange c.time
  later : ∀ c' ∈ calls, c'.time ≤ c.time
  clear : ∀ r, (records calls).get? key = some r → InForce c.time r ∨ Over c.time r
  proper : Proper c.time ((records calls).get? key) c.request

/-- One call after the other. -/
inductive Lawful (key : Key) : List Call → Prop
  | nil : Lawful key []
  | snoc {calls : List Call} {c : Call} (h : Lawful key calls) (next : Next key calls c) :
    Lawful key (calls ++ [c])

/-- The answers of the server and of memory agree. -/
def Agree (now : Int) : (q : Ledger.Request) → q.Answer → q.Answer → Prop
  | .claim _, a, b => a = b ∧ ∃ outcome, b = .ok outcome
  | .find key, a, b =>
    (a = .error (.itemNotFound key) ↔
      b = .error (.itemNotFound key) ∨ ∃ r, b = .ok r ∧ r.isExpired (secondsOf now) = true) ∧
    (a ≠ .error (.itemNotFound key) → ∃ r r', a = .ok r ∧ b = .ok r' ∧ Alike r r')
  | .complete _, a, b => a = .ok () ∧ b = .ok ()
  | .remove _, a, b => a = .ok () ∧ b = .ok ()

theorem Mirror.answer {m : FieldStore.Memory} {l : Ledger.Memory} (token : String)
    {q : Ledger.Request} (h : Mirror names key now (l.get? key) (m.entry? now key.text))
    (hm : m.Sound) (hnames : Distinct names) (hnow : Word.InRange now) (hkey : q.key = key)
    (proper : Proper now (l.get? key) q) :
    Agree now q (alone now token (perform names q) m).1 (l.answer now q).1 ∧
      Mirror names key now (Assoc.get? (l.answer now q).2 key)
        (Memory.entry? (alone now token (perform names q) m).2 now key.text) := by
  subst hkey
  cases q with
  | claim r =>
    obtain ⟨hresult, hmirror⟩ := h.claim hm hnames hnow proper
    refine ⟨⟨hresult, ?_⟩, hmirror⟩
    rw [Ledger.Memory.answer]
    split
    · exact ⟨_, rfl⟩
    · exact ⟨_, rfl⟩
  | find k =>
    have h : Mirror names k now (l.get? k) (m.entry? now k.text) := h
    refine ⟨?_, ?_⟩
    · unfold Agree
      rcases h.find hm with ⟨r, r', ha, hb, hunexpired, halike⟩ | ⟨ha, hb⟩
      · refine ⟨?_, fun _ => ⟨r', r, ha, hb, halike⟩⟩
        show (alone now token (Fields.find names k) m).1 = _ ↔ _
        rw [ha, hb]
        constructor
        · exact fun hnot => nomatch hnot
        · rintro (hnot | ⟨old, hold, hexpired⟩)
          · cases hnot
          · cases hold
            rw [hunexpired] at hexpired
            cases hexpired
      · exact ⟨⟨fun _ => hb, fun _ => ha⟩, fun hnot => absurd ha hnot⟩
    · have hstored : (l.answer now (.find k)).2 = l := by
        rw [Ledger.Memory.answer]
        split <;> rfl
      show Mirror names k now _
        (Memory.entry? (alone now token (Fields.find names k) m).2 now k.text)
      rw [hstored, alone_find, Memory.entry?_read hm.distinct]
      exact h
  | complete r =>
    obtain ⟨hresult, hmirror⟩ := h.complete hm hnames proper
    exact ⟨⟨hresult, rfl⟩, hmirror⟩
  | remove k =>
    obtain ⟨hresult, hmirror⟩ := Mirror.remove hm
    exact ⟨⟨hresult, rfl⟩, hmirror⟩

theorem records_snoc (calls : List Call) (c : Call) :
    records (calls ++ [c]) = ((records calls).answer c.time c.request).2 := by
  rw [records, List.foldl_append]
  rfl

theorem served_snoc (names : FieldNames) (calls : List Call) (c : Call) :
    served names (calls ++ [c]) =
      (alone c.time c.token (perform names c.request) (served names calls)).2 := by
  rw [served, List.foldl_append]
  rfl

theorem served_sound (names : FieldNames) (calls : List Call) : (served names calls).Sound := by
  suffices h : ∀ m : FieldStore.Memory, m.Sound → Memory.Sound
      (calls.foldl (fun m c => (alone c.time c.token (perform names c.request) m).2) m) from
    h _ Memory.sound_empty
  induction calls with
  | nil => exact fun _ h => h
  | cons c calls ih => exact fun m h => ih _ (sound_alone h c.time c.token _)

/-- From one call to the next the server mirrors what memory stores. -/
theorem Lawful.mirror {calls : List Call} (hnames : Distinct names) (h : Lawful key calls) :
    ∀ t, (∀ c ∈ calls, c.time ≤ t) →
      (∀ r, (records calls).get? key = some r → InForce t r ∨ Over t r) →
      Mirror names key t ((records calls).get? key)
        (Memory.entry? (served names calls) t key.text) := by
  induction h with
  | nil => exact fun t _ _ => .vacant
  | @snoc calls c h next ih =>
    intro t hle clear
    have before := ih c.time next.later next.clear
    obtain ⟨-, hmirror⟩ := before.answer c.token (served_sound names calls) hnames
      next.range next.about next.proper
    have hsound := served_sound names (calls ++ [c])
    rw [records_snoc] at clear ⊢
    rw [served_snoc] at hsound ⊢
    exact hmirror.later hsound (hle c (by simp)) clear

/-- **Over one history, the server and memory agree on every answer.** -/
theorem ledgers_agree {calls : List Call} {c : Call} (hnames : Distinct names)
    (h : Lawful key calls) (next : Next key calls c) :
    Agree c.time c.request
      (alone c.time c.token (perform names c.request) (served names calls)).1
      ((records calls).answer c.time c.request).1 :=
  ((h.mirror hnames c.time next.later next.clear).answer c.token (served_sound names calls)
    hnames next.range next.about next.proper).1

/-- The order is claimed at the end of a second. -/
def heldOrder : Record := ⟨order, .inProgress, some 10, some 5000, none, some "d"⟩

/-- It is completed at the end of the next one. -/
def chargedOrder : Record := ⟨order, .completed, some 11, none, some "charged", some "d"⟩

def claimCall : Call := ⟨999, "a", .claim heldOrder⟩

def completeCall : Call := ⟨1999, "b", .complete chargedOrder⟩

theorem lawful_calls : Lawful order [claimCall, completeCall] := by
  refine @Lawful.snoc order [claimCall] completeCall (.snoc .nil ?_) ?_
  · exact
      { about := rfl
        range := by decide
        later := by simp
        clear := nofun
        proper :=
          { expiry := ⟨10, rfl, by decide, by decide, by decide⟩
            deadline := by decide
            status := rfl
            range := by decide
            data := rfl
            payloadHash := by decide } }
  · have hstored : (records [claimCall]).get? order = some heldOrder := rfl
    refine
      { about := rfl
        range := by decide
        later := by decide
        clear := ?_
        proper :=
          { expiry := ⟨11, rfl, by decide, by decide, by decide⟩
            deadline := by decide
            status := rfl
            finished := rfl
            data := by decide
            payloadHash := by decide
            same := ?_ } }
    · intro r hr
      cases hstored.symm.trans hr
      exact .inl ⟨⟨10, rfl, by decide⟩, by decide⟩
    · intro r hr
      cases hstored.symm.trans hr
      rfl

/-- At the beginning of a second the server shows a second more than memory stores. -/
theorem findCall_agrees :
    ((records [claimCall, completeCall]).answer 2000 (.find order)).1 = .ok chargedOrder ∧
      ∃ r, (alone 2000 "c" (find .initial order) (served .initial [claimCall, completeCall])).1 =
        .ok r ∧ r.expiry = some 12 ∧ Alike r chargedOrder := by
  have hstored : (records [claimCall, completeCall]).get? order = some chargedOrder := rfl
  have hfound : ((records [claimCall, completeCall]).answer 2000 (.find order)).1 =
      .ok chargedOrder := rfl
  have next : Next order [claimCall, completeCall] ⟨2000, "c", .find order⟩ :=
    { about := rfl
      range := by decide
      later := by decide
      clear := fun r hr => by
        cases hstored.symm.trans hr
        exact .inl ⟨⟨11, rfl, by decide⟩, by decide⟩
      proper := trivial }
  have hshown : (alone 2000 "c" (find .initial order)
      (served .initial [claimCall, completeCall])).1 =
        .ok ⟨order, .completed, some 12, some 5000, some "charged", some "d"⟩ := rfl
  obtain ⟨-, hagree⟩ := ledgers_agree initial_distinct lawful_calls next
  obtain ⟨r, r', hr, hr', halike⟩ := hagree fun hnot => nomatch hshown.symm.trans hnot
  cases hfound.symm.trans hr'
  refine ⟨hfound, r, hr, ?_, halike⟩
  cases hshown.symm.trans hr
  rfl

end AtMostOnce.Ledger.Fields
