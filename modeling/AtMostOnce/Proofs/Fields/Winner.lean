/-
Any number of claims at one instant.

While the clock stands still nothing is dropped, so the key is in one of four states.  It
is vacant until a call claims the status field; a record may block it for good; an orphan
waits until a call has the lock; and from then on one call leads, and every other call
finds a record or the lock in its way.  `Turn` says what one turn of a call can do to the
key and its lock, `Standing.turn` that it keeps the key in one of the four states, and
`one_winner` what that means for the calls that have ended.
-/
import AtMostOnce.Proofs.Decimal
import AtMostOnce.Proofs.Fields.Instant
import AtMostOnce.Proofs.Fields.Taking

namespace AtMostOnce.Ledger.Fields

open FieldStore

/-- A record counts for some time from now on, and not longer than the clock can tell. -/
def Counts (now : Millis) (r : Record) : Prop :=
  ∃ expiry, r.expiry = some expiry ∧ secondsOf now < expiry ∧
    Memory.Fits now (expiry - secondsOf now)

/-- A record that is in force for some time from now on, and not longer than the clock can tell. -/
structure Lasting (now : Millis) (r : Record) : Prop where
  expiry : ∃ expiry, r.expiry = some expiry ∧ secondsOf now < expiry ∧
    Memory.Fits now (expiry - secondsOf now)
  deadline : ∀ d, r.deadline = some d → now ≤ d

/-- What the server keeps of a claim that has claimed the status field. -/
def claimedEntry (names : FieldNames) : Entry := ⟨[(names.status, Status.inProgress.name)], none⟩

/-- What the server keeps of a claim that has written its record. -/
def entryOf (names : FieldNames) (now : Millis) (r : Record) : Entry :=
  ⟨Assoc.insertAll [] (orphanFields names r), (ttlAt now r).map (Memory.ahead now)⟩

section

variable {names : FieldNames} {now : Millis} {r : Record}

theorem Lasting.counts (h : Lasting now r) : Counts now r := h.expiry

theorem Counts.ttlAt (h : Counts now r) :
    ∃ expiry, r.expiry = some expiry ∧ Fields.ttlAt now r = some (expiry - secondsOf now) ∧
      0 < expiry - secondsOf now ∧ Memory.Fits now (expiry - secondsOf now) := by
  obtain ⟨expiry, hexpiry, hlt, hfits⟩ := h
  have hpos : 0 < expiry - secondsOf now := Int.sub_pos.mpr hlt
  refine ⟨expiry, hexpiry, ?_, hpos, hfits⟩
  rw [Fields.ttlAt, hexpiry]
  exact congrArg some (hfits.max_wrap hpos)

theorem Lasting.ttlAt (h : Lasting now r) :
    ∃ expiry, r.expiry = some expiry ∧ Fields.ttlAt now r = some (expiry - secondsOf now) ∧
      0 < expiry - secondsOf now ∧ Memory.Fits now (expiry - secondsOf now) := h.counts.ttlAt

theorem Counts.isLive (h : Counts now r) (fields : Fields) :
    Memory.isLive now ⟨fields, (Fields.ttlAt now r).map (Memory.ahead now)⟩ = true := by
  obtain ⟨expiry, -, httl, hpos, hfits⟩ := h.ttlAt
  rw [httl]
  simpa [Memory.isLive] using Memory.lt_ahead hfits hpos

/-- What a claim writes on the status field that it has claimed. -/
theorem written_claimed (h : r.expiry ≠ none) :
    Memory.written now (some (claimedEntry names)) (claimFields names r) (Fields.ttlAt now r) =
      some (entryOf names now r) := by
  obtain ⟨expiry, hexpiry⟩ := Option.ne_none_iff_exists'.mp h
  unfold Memory.written entryOf orphanFields Fields.ttlAt
  rw [hexpiry]
  cases claimFields names r <;> rfl

theorem Counts.written_claimed (h : Counts now r) :
    Memory.written now (some (claimedEntry names)) (claimFields names r) (Fields.ttlAt now r) =
      some (entryOf names now r) := by
  obtain ⟨expiry, hexpiry, -⟩ := h
  exact Fields.written_claimed (hexpiry ▸ Option.some_ne_none expiry)

/-- A lock lasts at most as long as the record, so its end can be told as well. -/
theorem Lasting.lock_lasts (h : Lasting now r) (hnow : Word.InRange now) :
    now < Memory.ahead now (min ((Fields.ttlAt now r).getD maxLockSeconds) maxLockSeconds) := by
  obtain ⟨expiry, -, httl, hpos, hfits⟩ := h.ttlAt
  have hlimit : 0 < maxLockSeconds := by decide
  rw [httl]
  exact Memory.lt_ahead (hfits.min hnow hlimit hpos) (Int.lt_min.mpr ⟨hpos, hlimit⟩)

theorem claimedEntry_blocking (hnames : Distinct names) :
    Blocking names now (claimedEntry names).fields := by
  refine ⟨.inProgress, ?_, ?_⟩
  · simp [claimedEntry, Assoc.get?, Status.parse_name]
  · rintro ⟨-, d, hd, -⟩
    simp [deadline?, claimedEntry, Assoc.get?, hnames.status_deadline] at hd

theorem Lasting.blocking (h : Lasting now r) (hnames : Distinct names) :
    Blocking names now (entryOf names now r).fields := by
  refine ⟨.inProgress, ?_, ?_⟩
  · rw [entryOf, status_orphanFields hnames]
    rfl
  · rintro ⟨-, d, hd, hlt⟩
    rw [deadline?, entryOf, deadline_orphanFields hnames, Option.bind_map] at hd
    obtain ⟨d', hd', hread⟩ := Option.bind_eq_some_iff.mp hd
    change Word.ofSignedDigits? (Text.decimal d').toList = some d at hread
    rw [Word.ofSignedDigits?_decimal] at hread
    split at hread
    · cases hread
      exact absurd hlt (Int.not_lt.mpr (h.deadline d hd'))
    · cases hread

end

/-! ### One turn -/

/-- What a turn of a claim may do to the entry under its key, to the lock, and to its phase. -/
inductive Turn (names : FieldNames) (now : Millis) (r : Record) (held lock : Option Entry) :
    Bid → Option Entry → Option Entry → Bid → Prop
  | stays (s : Bid) : Turn names now r held lock s held lock s
  | claims (e : Entry) (found : e = held.getD ⟨[], none⟩)
      (open_ : e.fields.get? names.status = none) :
      Turn names now r held lock .starting
        (some { e with fields := e.fields.insert names.status Status.inProgress.name }) lock
        .claimed
  | meets (e : Entry) (found : held = some e) (taken : e.fields.get? names.status ≠ none) :
      Turn names now r held lock .starting held lock .refused
  | writes :
      Turn names now r held lock .claimed
        (((Memory.written now held (claimFields names r) (ttlAt now r)).or held).filter
          (Memory.isLive now)) lock .won
  | reads :
      Turn names now r held lock .refused held lock (.saw ((held.map Entry.fields).getD []))
  | locks (fields : Fields) (lock' : Option Entry) (open_ : ¬ Blocking names now fields)
      (free : lock = none) (locked : lock' ≠ none) :
      Turn names now r held lock (.saw fields) held lock' .locked
  | loses (fields : Fields) (locked : lock ≠ none) :
      Turn names now r held lock (.saw fields) held lock .beaten
  | replaces :
      Turn names now r held lock .locked
        ((Memory.written now none (orphanFields names r) (ttlAt now r)).filter (Memory.isLive now))
        lock .won

/-- **What an operation of a claim does is one of the turns.** -/
theorem turn_of_answer {names : FieldNames} {now : Millis} {r : Record} {m : FieldStore.Memory}
    {op : Operation} {s : Bid} (hd : m.Distinct) (sound : m.writeFails = false)
    (hnow : Word.InRange now) (hr : Lasting now r) (hall : bidAllows names now r s (.store op)) :
    Turn names now r (m.entry? now r.key.text) (m.entry? now (lockName r.key)) s
      (Memory.entry? (FieldStore.Memory.answer now op m).2 now r.key.text)
      (Memory.entry? (FieldStore.Memory.answer now op m).2 now (lockName r.key))
      (s.after (.store op) (FieldStore.Memory.answer now op m).1) := by
  have apart : op.key = r.key.text →
      Memory.entry? (FieldStore.Memory.answer now op m).2 now (lockName r.key) =
        m.entry? now (lockName r.key) := by
    intro hop
    refine Memory.entry?_answer_of_ne hd ?_
    rw [hop]
    exact Ne.symm (Claims.lockName_ne r.key)
  cases op with
  | claim key field value =>
    obtain ⟨rfl, rfl, rfl, rfl⟩ := hall
    rw [apart rfl]
    obtain ⟨granted, hg⟩ := Memory.claim_answered m now r.key.text names.status
      Status.inProgress.name
    cases granted with
    | true =>
      obtain ⟨e, he, hnone, hafter⟩ := Memory.claim_granted hd hg
      rw [hafter, hg]
      exact .claims e he hnone
    | false =>
      obtain ⟨⟨e, he, hsome⟩, hafter⟩ := Memory.claim_refused hd hg
      rw [hafter, hg]
      exact .meets e he hsome
  | write key fields ttl =>
    obtain ⟨rfl, rfl, rfl, rfl⟩ := hall
    obtain ⟨v, hv⟩ := Memory.answer_ok sound now (.write r.key.text (claimFields names r)
      (ttlAt now r))
    rw [apart rfl, Memory.entry?_write hd sound, hv]
    exact .writes
  | read key =>
    obtain ⟨rfl, rfl⟩ := hall
    rw [apart rfl, Memory.entry?_read hd]
    exact .reads
  | lock key token ttl =>
    obtain ⟨⟨fields, rfl, hopen⟩, rfl, rfl⟩ := hall
    have hheld : Memory.entry? (FieldStore.Memory.answer now (.lock (lockName r.key) token
        (min ((ttlAt now r).getD maxLockSeconds) maxLockSeconds)) m).2 now r.key.text =
          m.entry? now r.key.text :=
      Memory.entry?_answer_of_ne hd (Claims.lockName_ne r.key)
    rw [hheld]
    by_cases hfree : m.entry? now (lockName r.key) = none
    · obtain ⟨hgranted, hlocked⟩ := Memory.lock_granted hd hfree (hr.lock_lasts hnow)
      rw [hgranted]
      exact .locks fields _ hopen hfree hlocked
    · obtain ⟨hrefused, hafter⟩ := Memory.lock_refused hd hfree
      rw [hrefused, hafter]
      exact .loses fields hfree
  | replace key fields ttl =>
    obtain ⟨rfl, rfl, rfl, rfl⟩ := hall
    rw [apart rfl, Memory.entry?_replace hd]
    exact .replaces
  | delete key => exact hall.elim

/-! ### How the key stands -/

/-- A claim has not taken the key, and if it has read it, then a record or the lock is in its
way. -/
def Bid.Waits (names : FieldNames) (now : Millis) (lock : Option Entry) : Bid → Prop
  | .starting | .refused | .beaten => True
  | .saw fields => Blocking names now fields ∨ lock ≠ none
  | .claimed | .locked | .won => False

/-- A claim has at most read an orphan. -/
def Bid.Looks (names : FieldNames) (now : Millis) : Bid → Prop
  | .starting | .refused => True
  | .saw fields => ¬ Blocking names now fields
  | _ => False

/-- What the server holds for the claim that leads. -/
inductive Leads (names : FieldNames) (now : Millis) (r : Record) (lock : Option Entry) :
    Bid → Option Entry → Prop
  | claimed : Leads names now r lock .claimed (some (claimedEntry names))
  | locked (e : Entry) (status : e.fields.get? names.status ≠ none) (held : lock ≠ none) :
    Leads names now r lock .locked (some e)
  | won : Leads names now r lock .won (some (entryOf names now r))

section

variable {ι : Type} (names : FieldNames) (now : Millis) (rec : ι → Record)

structure Vacant (held lock : Option Entry) (bids : ι → Bid) : Prop where
  free : held = none
  unlocked : lock = none
  idle : ∀ i, bids i = .starting

structure Blocked (held lock : Option Entry) (bids : ι → Bid) : Prop where
  blocking : ∃ e, held = some e ∧ Blocking names now e.fields
  waits : ∀ i, (bids i).Waits names now lock

structure Orphan (held lock : Option Entry) (bids : ι → Bid) : Prop where
  orphan : ∃ e, held = some e ∧ e.fields.get? names.status ≠ none ∧ ¬ Blocking names now e.fields
  unlocked : lock = none
  looks : ∀ i, (bids i).Looks names now

structure Led (i : ι) (held lock : Option Entry) (bids : ι → Bid) : Prop where
  leads : Leads names now (rec i) lock (bids i) held
  waits : ∀ j, j ≠ i → (bids j).Waits names now lock

end

section

variable {ι : Type} [DecidableEq ι] {names : FieldNames} {now : Millis} {rec : ι → Record}
  {held lock held' lock' : Option Entry} {bids : ι → Bid} {i j : ι} {s s' : Bid}

theorem Bid.Waits.mono (h : s.Waits names now lock) (hlock : lock ≠ none → lock' ≠ none) :
    s.Waits names now lock' := by
  cases s with
  | saw fields => exact h.imp_right hlock
  | _ => exact h

/-- One call's turn leaves the others waiting. -/
theorem waits_update (h : ∀ l, l ≠ j → (bids l).Waits names now lock)
    (hs : i ≠ j → s.Waits names now lock') (hlock : lock ≠ none → lock' ≠ none) :
    ∀ l, l ≠ j → (Function.update bids i s l).Waits names now lock' := by
  intro l hl
  by_cases hi : l = i
  · subst hi
    rw [Function.update_self]
    exact hs hl
  · rw [Function.update_of_ne hi]
    exact (h l hl).mono hlock

/-- A waiting call stays a waiting one if the fields that can be read block it or it finds the
key locked. -/
theorem Bid.Waits.turn {r : Record} {e : Entry} (h : s.Waits names now lock)
    (status : e.fields.get? names.status ≠ none)
    (inWay : Blocking names now e.fields ∨ lock ≠ none)
    (turn : Turn names now r (some e) lock s held' lock' s') :
    held' = some e ∧ lock' = lock ∧ s'.Waits names now lock := by
  cases turn with
  | stays => exact ⟨rfl, rfl, h⟩
  | claims e' found open_ =>
    subst found
    exact absurd open_ status
  | meets => exact ⟨rfl, rfl, trivial⟩
  | writes => exact h.elim
  | reads => exact ⟨rfl, rfl, inWay⟩
  | locks fields lock' open_ free =>
    rcases h with h | h
    · exact absurd h open_
    · exact absurd free h
  | loses => exact ⟨rfl, rfl, trivial⟩
  | replaces => exact h.elim

theorem Leads.inWay {r : Record} (hnames : Distinct names) (hr : Lasting now r)
    (h : Leads names now r lock s held) :
    ∃ e, held = some e ∧ e.fields.get? names.status ≠ none ∧
      (Blocking names now e.fields ∨ lock ≠ none) := by
  cases h with
  | claimed =>
    have hblocking : Blocking names now (claimedEntry names).fields := claimedEntry_blocking hnames
    exact ⟨_, rfl, hblocking.status, .inl hblocking⟩
  | locked e status held => exact ⟨e, rfl, status, .inr held⟩
  | won => exact ⟨_, rfl, (hr.blocking hnames).status, .inl (hr.blocking hnames)⟩

/-- What the leader does next brings it to its record. -/
theorem Leads.turn {r : Record} (hr : Lasting now r) (h : Leads names now r lock s held)
    (turn : Turn names now r held lock s held' lock' s') :
    lock' = lock ∧ Leads names now r lock s' held' := by
  have live : ∀ fields, (some (⟨fields, (ttlAt now r).map (Memory.ahead now)⟩ : Entry)).filter
      (Memory.isLive now) = some ⟨fields, (ttlAt now r).map (Memory.ahead now)⟩ :=
    fun fields => by rw [Option.filter_some, if_pos (hr.counts.isLive fields)]
  obtain ⟨expiry, -, httl, -⟩ := hr.ttlAt
  cases h with
  | claimed =>
    cases turn with
    | stays => exact ⟨rfl, .claimed⟩
    | writes =>
      refine ⟨rfl, ?_⟩
      rw [hr.counts.written_claimed, Option.some_or, entryOf, live]
      exact .won
  | locked e status locked =>
    cases turn with
    | stays => exact ⟨rfl, .locked e status locked⟩
    | replaces =>
      refine ⟨rfl, ?_⟩
      have hwritten : Memory.written now none (orphanFields names r) (ttlAt now r) =
          some (entryOf names now r) := by
        unfold Memory.written entryOf
        rw [httl]
        rfl
      rw [hwritten, entryOf, live]
      exact .won
  | won =>
    cases turn with
    | stays => exact ⟨rfl, .won⟩

theorem Led.turn (hnames : Distinct names) (hr : Lasting now (rec j))
    (h : Led names now rec j held lock bids)
    (turn : Turn names now (rec i) held lock (bids i) held' lock' s) :
    Led names now rec j held' lock' (Function.update bids i s) := by
  by_cases hi : i = j
  · subst hi
    obtain ⟨rfl, hleads⟩ := h.leads.turn hr turn
    refine ⟨by rwa [Function.update_self], waits_update h.waits (fun hne => absurd rfl hne) id⟩
  · obtain ⟨e, rfl, status, inWay⟩ := h.leads.inWay hnames hr
    obtain ⟨rfl, rfl, hwaits⟩ := (h.waits i hi).turn status inWay turn
    refine ⟨?_, waits_update h.waits (fun _ => hwaits) id⟩
    rw [Function.update_of_ne (Ne.symm hi)]
    exact h.leads

theorem Blocked.turn (h : Blocked names now held lock bids)
    (turn : Turn names now (rec i) held lock (bids i) held' lock' s) :
    Blocked names now held' lock' (Function.update bids i s) := by
  obtain ⟨e, rfl, hblocking⟩ := h.blocking
  obtain ⟨rfl, rfl, hwaits⟩ := (h.waits i).turn hblocking.status (.inl hblocking) turn
  refine ⟨⟨e, rfl, hblocking⟩, fun l => ?_⟩
  by_cases hl : l = i
  · rw [hl, Function.update_self]
    exact hwaits
  · rw [Function.update_of_ne hl]
    exact h.waits l

/-- A vacant key is taken by the first call that has its turn. -/
theorem Vacant.turn (h : Vacant held lock bids)
    (turn : Turn names now (rec i) held lock (bids i) held' lock' s) :
    Vacant held' lock' (Function.update bids i s) ∨
      Led names now rec i held' lock' (Function.update bids i s) := by
  obtain ⟨rfl, rfl, idle⟩ := h
  have hi := idle i
  generalize bids i = b at turn hi
  subst hi
  cases turn with
  | stays =>
    refine .inl ⟨rfl, rfl, fun l => ?_⟩
    by_cases hl : l = i
    · rw [hl, Function.update_self]
    · rw [Function.update_of_ne hl]
      exact idle l
  | claims e found =>
    subst found
    refine .inr ⟨?_, fun l hl => ?_⟩
    · rw [Function.update_self]
      exact .claimed
    · rw [Function.update_of_ne hl, idle l]
      trivial
  | meets e found => cases found

/-- An orphan is left to the first call that takes the lock. -/
theorem Orphan.turn (h : Orphan names now held lock bids)
    (turn : Turn names now (rec i) held lock (bids i) held' lock' s) :
    Orphan names now held' lock' (Function.update bids i s) ∨
      Led names now rec i held' lock' (Function.update bids i s) := by
  obtain ⟨⟨e, rfl, status, hopen⟩, rfl, looks⟩ := h
  have hi := looks i
  have still : s.Looks names now → Orphan names now (some e) none (Function.update bids i s) := by
    intro hs
    refine ⟨⟨e, rfl, status, hopen⟩, rfl, fun l => ?_⟩
    by_cases hl : l = i
    · rw [hl, Function.update_self]
      exact hs
    · rw [Function.update_of_ne hl]
      exact looks l
  generalize bids i = b at turn hi
  cases turn with
  | stays => exact .inl (still hi)
  | claims e' found open_ =>
    subst found
    exact absurd open_ status
  | meets => exact .inl (still trivial)
  | writes => exact hi.elim
  | reads => exact .inl (still hopen)
  | locks fields lock' open_ free locked =>
    refine .inr ⟨?_, fun l hl => ?_⟩
    · rw [Function.update_self]
      exact .locked e status locked
    · rw [Function.update_of_ne hl]
      have hlooks := looks l
      generalize bids l = b at hlooks
      cases b with
      | saw fields => exact .inr locked
      | starting => trivial
      | refused => trivial
      | _ => exact hlooks.elim
  | loses fields locked => exact absurd rfl locked
  | replaces => exact hi.elim

/-- The key is vacant or an orphan is there, or a claim that has found it so leads. -/
inductive Contested (names : FieldNames) (now : Millis) (rec : ι → Record)
    (held lock : Option Entry) (bids : ι → Bid) : Prop where
  | vacant (h : Vacant held lock bids)
  | orphan (h : Orphan names now held lock bids)
  | led (i : ι) (h : Led names now rec i held lock bids)

/-- The ways in which the key can stand. -/
def Standing (names : FieldNames) (now : Millis) (rec : ι → Record) (held lock : Option Entry)
    (bids : ι → Bid) : Prop :=
  Blocked names now held lock bids ∨ Contested names now rec held lock bids

omit [DecidableEq ι] in
theorem Orphan.has_status (h : Orphan names now held lock bids) :
    ∃ e, held = some e ∧ e.fields.get? names.status ≠ none := by
  obtain ⟨e, he, status, -⟩ := h.orphan
  exact ⟨e, he, status⟩

omit [DecidableEq ι] in
theorem Led.has_status (hnames : Distinct names) (hr : Lasting now (rec j))
    (h : Led names now rec j held lock bids) :
    ∃ e, held = some e ∧ e.fields.get? names.status ≠ none := by
  obtain ⟨e, he, status, -⟩ := h.leads.inWay hnames hr
  exact ⟨e, he, status⟩

omit [DecidableEq ι] in
theorem Blocked.has_status (h : Blocked names now held lock bids) :
    ∃ e, held = some e ∧ e.fields.get? names.status ≠ none := by
  obtain ⟨e, he, hblocking⟩ := h.blocking
  exact ⟨e, he, hblocking.status⟩

section

variable (hnames : Distinct names) (hr : ∀ i, Lasting now (rec i))

include hnames hr

theorem Contested.turn (h : Contested names now rec held lock bids)
    (turn : Turn names now (rec i) held lock (bids i) held' lock' s) :
    Contested names now rec held' lock' (Function.update bids i s) := by
  cases h with
  | vacant h =>
    rcases h.turn turn with h | h
    · exact .vacant h
    · exact .led i h
  | orphan h =>
    rcases h.turn turn with h | h
    · exact .orphan h
    · exact .led i h
  | led j h => exact .led j (h.turn hnames (hr j) turn)

omit [DecidableEq ι] in
/-- If the key holds something, then a status is among it. -/
theorem Standing.has_status (h : Standing names now rec held lock bids) (there : held ≠ none) :
    ∃ e, held = some e ∧ e.fields.get? names.status ≠ none := by
  rcases h with h | h | h | ⟨j, h⟩
  · exact h.has_status
  · exact absurd h.free there
  · exact h.has_status
  · exact h.has_status hnames (hr j)

theorem Standing.turn (h : Standing names now rec held lock bids)
    (turn : Turn names now (rec i) held lock (bids i) held' lock' s) :
    Standing names now rec held' lock' (Function.update bids i s) := by
  rcases h with h | h
  · exact .inl (h.turn turn)
  · exact .inr (h.turn hnames hr turn)

/-- What the key holds does not go. -/
theorem Standing.stays (h : Standing names now rec held lock bids)
    (turn : Turn names now (rec i) held lock (bids i) held' lock' s) (there : held ≠ none) :
    held' ≠ none := by
  have some_of : ∀ {held'' : Option Entry}, (∃ e, held'' = some e ∧
      e.fields.get? names.status ≠ none) → held'' ≠ none := by
    rintro _ ⟨e, rfl, -⟩
    exact Option.some_ne_none e
  rcases h with h | h | h | ⟨j, h⟩
  · exact some_of (h.turn turn).has_status
  · exact absurd h.free there
  · rcases h.turn turn with h | h
    · exact some_of h.has_status
    · exact some_of (h.has_status hnames (hr i))
  · exact some_of ((h.turn hnames (hr j) turn).has_status hnames (hr j))

end

/-! ### The end of the claims -/

omit [DecidableEq ι] in
theorem Bid.Waits.ends {result : Except Error Outcome} (h : s.Waits names now lock)
    (ends : bidEnds names now s result) : result = .ok .conflict := by
  cases s with
  | beaten => exact ends
  | saw fields => exact ends.2
  | starting => exact ends.elim
  | refused => exact ends.elim
  | _ => exact h.elim

theorem Leads.ends {r : Record} {result : Except Error Outcome}
    (h : Leads names now r lock s held) (ends : bidEnds names now s result) :
    result = .ok .created ∧ held = some (entryOf names now r) := by
  cases h with
  | claimed => exact ends.elim
  | locked => exact ends.elim
  | won => exact ⟨ends, rfl⟩

omit [DecidableEq ι] in
/-- A contest is over only if somebody leads. -/
theorem Contested.led_of_ended [Nonempty ι] (h : Contested names now rec held lock bids)
    (ended : ∀ i, ∃ result, bidEnds names now (bids i) result) :
    ∃ i, Led names now rec i held lock bids := by
  obtain ⟨i⟩ := ‹Nonempty ι›
  obtain ⟨result, hend⟩ := ended i
  cases h with
  | vacant h =>
    rw [h.idle i] at hend
    exact hend.elim
  | orphan h =>
    have hlooks := h.looks i
    generalize bids i = b at hlooks hend
    cases b with
    | saw fields => exact absurd hend.1 hlooks
    | starting => exact hend.elim
    | refused => exact hend.elim
    | _ => exact hlooks.elim
  | led j h => exact ⟨j, h⟩

end

namespace Claims

variable {ι : Type} [DecidableEq ι] {names : FieldNames} {k : Key} {now : Millis} {rec : ι → Record}

section

variable (x : Claims names rec)

/-- What the lock of a key holds before the `n`-th event. -/
def lock (k : Key) (n : Nat) : Option Entry :=
  (x.state n).memory.entry? (x.state n).now (lockName k)

/-- How far a claim has come before the `n`-th event, if the clock stands still. -/
def bidOf (now : Millis) (i : ι) (n : Nat) : Bid :=
  x.phase (bidProtocol names now (rec i)) .starting i n

/-- The claims are for one key at one instant, at a server that does not fail. -/
structure AtInstant (k : Key) (now : Millis) : Prop where
  key : ∀ i, (rec i).key = k
  names : Distinct names
  clock : ∀ n ≤ x.length, (x.state n).now = now
  range : Word.InRange now
  memory : (x.state 0).memory.Distinct
  sound : (x.state 0).memory.writeFails = false
  lasting : ∀ i, Lasting now (rec i)

end

variable {x : Claims names rec} {n : Nat} {i : ι}

namespace AtInstant

variable (h : x.AtInstant k now)

include h

theorem writes_succeed (hn : n ≤ x.length) : (x.state n).memory.writeFails = false := by
  induction n with
  | zero => exact h.sound
  | succ n ih =>
    rcases memory_succ (Nat.lt_of_succ_le hn) with hs | ⟨i, op, a, hsaid⟩
    · rw [hs]
      exact ih (by omega)
    · have hm := Memory.writeFails_answer (ih (by omega)) (x.state n).now op
      rw [(carried_out hsaid).1] at hm
      exact hm

theorem honest {q : Request} {a : q.Answer} (hs : x.Says n i q a) : answersAt now q a := by
  have hclock := h.clock n (Nat.le_of_lt hs.1)
  cases q with
  | now => exact hs.answers.1.trans hclock
  | token => trivial
  | store op =>
    have hans := congrArg Prod.fst (carried_out hs).1
    rw [hclock] at hans
    obtain ⟨v, hv⟩ := Memory.answer_ok (h.writes_succeed (Nat.le_of_lt hs.1)) now op
    obtain rfl : a = .ok v := hans.symm.trans hv
    cases op with
    | read key =>
      obtain ⟨fields, ttl⟩ := v
      obtain rfl : (x.state n).memory.ttl now key = ttl := congrArg Prod.snd (Except.ok.inj hans)
      exact ⟨fields, _, rfl, Memory.secondsOf_le_add_ttl h.range _ key⟩
    | _ => exact ⟨v, rfl⟩

theorem allowed {q : Request} {a : q.Answer} (hs : x.Says n i q a) :
    bidAllows names now (rec i) (x.bidOf now i n) q :=
  Execution.Says.allowed (i := i) hs (claim_follows_bid names now (rec i)) fun _ _ _ => h.honest

theorem held_answer {op : Operation} {a : op.Answer} (hs : x.Says n i (.store op) a)
    (key : String) :
    (x.state (n + 1)).memory.entry? (x.state (n + 1)).now key =
      Memory.entry? (FieldStore.Memory.answer now op (x.state n).memory).2 now key := by
  obtain ⟨hm, hnow⟩ := carried_out hs
  rw [hnow, h.clock n (Nat.le_of_lt hs.1)]
  rw [h.clock n (Nat.le_of_lt hs.1)] at hm
  rw [hm]

/-- **One turn of a claim is one of the listed ones.** -/
theorem turn {q : Request} {a : q.Answer} (hs : x.Says n i q a) :
    Turn names now (rec i) (x.held k n) (x.lock k n) (x.bidOf now i n) (x.held k (n + 1))
      (x.lock k (n + 1)) ((x.bidOf now i n).after q a) := by
  have hn := Nat.le_of_lt hs.1
  have hall := h.allowed hs
  have hclock := h.clock n hn
  cases q with
  | now =>
    have same : x.state (n + 1) = x.state n := hs.answers.2
    unfold held lock
    rw [same]
    exact .stays _
  | token =>
    have same : x.state (n + 1) = x.state n := hs.answers
    unfold held lock
    rw [same]
    exact .stays _
  | store op =>
    have hans := congrArg Prod.fst (carried_out hs).1
    rw [hclock] at hans
    obtain rfl := hans
    have hturn := turn_of_answer (memory_distinct h.memory hn) (h.writes_succeed hn) h.range
      (h.lasting i) hall
    rw [h.key i, ← h.held_answer hs, ← h.held_answer hs] at hturn
    unfold held lock
    rw [hclock]
    exact hturn

theorem drift (hn : n < x.length) (he : x.event n = .drift) :
    x.held k (n + 1) = x.held k n ∧ x.lock k (n + 1) = x.lock k n ∧
      ∀ i, x.bidOf now i (n + 1) = x.bidOf now i n := by
  have hs := x.step n hn
  rw [he] at hs
  obtain ⟨⟨-, hmemory⟩, -⟩ := hs
  have hclock : (x.state (n + 1)).now = (x.state n).now :=
    (h.clock (n + 1) hn).trans (h.clock n (Nat.le_of_lt hn)).symm
  refine ⟨?_, ?_, fun i => ?_⟩
  · unfold held
    rw [hmemory, hclock]
  · unfold lock
    rw [hmemory, hclock]
  · simp only [bidOf, Execution.phase, he]

/-- What every turn keeps holds from some time on. -/
theorem keeps {p : Option Entry → Option Entry → (ι → Bid) → Prop}
    (turns : ∀ held lock bids i held' lock' s, p held lock bids →
      Turn names now (rec i) held lock (bids i) held' lock' s →
        p held' lock' (Function.update bids i s))
    {m : Nat} (base : p (x.held k m) (x.lock k m) fun i => x.bidOf now i m) (hmn : m ≤ n)
    (hn : n ≤ x.length) : p (x.held k n) (x.lock k n) fun i => x.bidOf now i n := by
  induction n, hmn using Nat.le_induction with
  | base => exact base
  | succ n hmn ih =>
    have before := ih (by omega)
    cases he : x.event n with
    | drift =>
      obtain ⟨hheld, hlock, hbids⟩ := h.drift (Nat.lt_of_succ_le hn) he
      rw [hheld, hlock, funext hbids]
      exact before
    | exchange i q a =>
      have hsaid : x.Says n i q a := ⟨Nat.lt_of_succ_le hn, he⟩
      have hbids : (fun j => x.bidOf now j (n + 1)) =
          Function.update (fun j => x.bidOf now j n) i ((x.bidOf now i n).after q a) :=
        hsaid.phases_succ (P := fun j => bidProtocol names now (rec j))
      rw [hbids]
      exact turns _ _ _ i _ _ _ before (h.turn hsaid)

theorem held_stays {m : Nat}
    (base : Standing names now rec (x.held k m) (x.lock k m) fun i => x.bidOf now i m)
    (there : x.held k m ≠ none) (hmn : m ≤ n) (hn : n ≤ x.length) :
    ∃ e, x.held k n = some e ∧ e.fields.get? names.status ≠ none := by
  obtain ⟨hstands, hthere⟩ := h.keeps
    (p := fun held lock bids => Standing names now rec held lock bids ∧ held ≠ none)
    (fun _ _ _ _ _ _ _ before turn => ⟨before.1.turn h.names h.lasting turn,
      before.1.stays h.names h.lasting turn before.2⟩) ⟨base, there⟩ hmn hn
  exact hstands.has_status h.names h.lasting hthere

theorem ended {result : Except Error Outcome} (he : x.Ends i result) :
    bidEnds names now (x.bidOf now i x.length) result := by
  have hf := Execution.follows_phase (x := x) (claim_follows_bid names now (rec i))
    (fun _ _ _ => h.honest) x.length (Nat.le_refl _)
  rw [he.at_length] at hf
  exact hf

end AtInstant

/-- **Claims at one instant.**  Nothing that is there goes, or loses its status.  If a record blocks
the key, then all claims meet a conflict.  Else one of them is granted the key, all others meet a
conflict, and what is there in the end is what the one has written, with its time to live. -/
theorem one_winner [Nonempty ι] (h : x.AtInstant k now) (unlocked : x.lock k 0 = none)
    (status : ∀ e, x.held k 0 = some e → e.fields.get? names.status ≠ none) :
    (∀ m n, m ≤ n → n ≤ x.length → x.held k m ≠ none →
      ∃ e, x.held k n = some e ∧ e.fields.get? names.status ≠ none) ∧
    ((∃ e, x.held k 0 = some e ∧ Blocking names now e.fields) →
      ∀ i result, x.Ends i result → result = .ok .conflict) ∧
    ((¬ ∃ e, x.held k 0 = some e ∧ Blocking names now e.fields) →
      (∀ i, ∃ result, x.Ends i result) →
      ∃ i, x.Ends i (.ok .created) ∧ (∀ j, j ≠ i → x.Ends j (.ok .conflict)) ∧
        (x.state x.length).memory.fields? now k.text =
          some (Assoc.insertAll [] (orphanFields names (rec i))) ∧
        ∃ expiry, (rec i).expiry = some expiry ∧
          (x.state x.length).memory.ttl now k.text = expiry - secondsOf now) := by
  have starts : ∀ {p : Bid → Prop}, p .starting → ∀ i, p (x.bidOf now i 0) := fun hp _ => hp
  have contested : (¬ ∃ e, x.held k 0 = some e ∧ Blocking names now e.fields) →
      Contested names now rec (x.held k 0) (x.lock k 0) fun i => x.bidOf now i 0 := by
    intro open_
    cases he : x.held k 0 with
    | none => exact .vacant ⟨rfl, unlocked, starts rfl⟩
    | some e =>
      exact .orphan ⟨⟨e, rfl, status e he, fun hb => open_ ⟨e, he, hb⟩⟩, unlocked, starts trivial⟩
  refine ⟨fun m n hmn hn hm => ?_, fun blocking i result hi => ?_, fun open_ ended => ?_⟩
  · have base : Standing names now rec (x.held k 0) (x.lock k 0) fun i => x.bidOf now i 0 := by
      by_cases hb : ∃ e, x.held k 0 = some e ∧ Blocking names now e.fields
      · exact .inl ⟨hb, starts trivial⟩
      · exact .inr (contested hb)
    have hstands := h.keeps (fun _ _ _ _ _ _ _ before => before.turn h.names h.lasting) base
      (Nat.zero_le m) (Nat.le_trans hmn hn)
    exact h.held_stays hstands hm hmn hn
  · have hend := h.keeps (fun _ _ _ _ _ _ _ before => before.turn)
      (p := Blocked names now) ⟨blocking, starts trivial⟩ (Nat.zero_le _) (Nat.le_refl _)
    exact (hend.waits i).ends (h.ended hi)
  · obtain ⟨result, hresult⟩ := Classical.axiomOfChoice ended
    have hend := h.keeps (fun _ _ _ _ _ _ _ before => before.turn h.names h.lasting)
      (contested open_) (Nat.zero_le _) (Nat.le_refl _)
    obtain ⟨i, hled⟩ := hend.led_of_ended fun i => ⟨result i, h.ended (hresult i)⟩
    obtain ⟨hi, hheld⟩ := hled.leads.ends (h.ended (hresult i))
    obtain ⟨expiry, hexpiry, httl, hpos, hfits⟩ := (h.lasting i).ttlAt
    rw [held, h.clock _ (Nat.le_refl _)] at hheld
    refine ⟨i, hi ▸ hresult i, fun j hj => ?_, ?_, expiry, hexpiry, ?_⟩
    · exact (hled.waits j hj).ends (h.ended (hresult j)) ▸ hresult j
    · rw [Memory.fields?, hheld]
      rfl
    · rw [entryOf, httl] at hheld
      rw [Memory.ttl_eq, hheld]
      exact Memory.secondsUntil_ahead hfits hpos

/-- Three calls find the orphan before one of them has the lock. -/
def race : Claims .initial fun _ : Option Bool => rival true :=
  (player (Option Bool)).play orphaned _
    (turns none 4 ++ turns (some true) 8 ++ turns (some false) 8 ++ turns none 4 ++
      turns (some true) 3 ++ turns (some false) 1)

theorem race_atInstant : race.AtInstant order 1000 where
  key _ := rfl
  names := initial_distinct
  clock := by decide +kernel
  range := by decide
  memory := orphaned_distinct
  sound := rfl
  lasting _ :=
    { expiry := ⟨3600, rfl, by decide, by decide, by decide⟩
      deadline := by decide }

theorem race_ends (i : Option Bool) : ∃ result, race.Ends i result := by
  cases i with
  | none => exact ⟨.ok .conflict, 28, by decide, rfl⟩
  | some second =>
    cases second with
    | true => exact ⟨.ok .created, 28, by decide, rfl⟩
    | false => exact ⟨.ok .conflict, 28, by decide, rfl⟩

/-- The race for the orphan has one winner. -/
theorem race_one_winner :
    ∃ i, race.Ends i (.ok .created) ∧ (∀ j, j ≠ i → race.Ends j (.ok .conflict)) ∧
      (race.state race.length).memory.fields? 1000 order.text =
        some (Assoc.insertAll [] (orphanFields .initial (rival true))) ∧
      ∃ expiry, (rival true).expiry = some expiry ∧
        (race.state race.length).memory.ttl 1000 order.text = expiry - secondsOf 1000 := by
  have hstart : ∃ e, race.held order 0 = some e ∧ e.fields.get? FieldNames.initial.status ≠ none ∧
      deadline? .initial e.fields = some 500 ∧
      Status.parse ((e.fields.get? FieldNames.initial.status).getD "") = .ok .inProgress :=
    ⟨_, rfl, by decide, by decide, rfl⟩
  obtain ⟨e, he, status, deadline, parses⟩ := hstart
  have same : ∀ e', race.held order 0 = some e' → e' = e := fun e' he' =>
    Option.some.inj (he'.symm.trans he)
  refine (one_winner race_atInstant rfl ?_).2.2 ?_ race_ends
  · intro e' he'
    rw [same e' he']
    exact status
  · rintro ⟨e', he', status', parses', hnot⟩
    rw [same e' he'] at parses' hnot
    obtain rfl : Status.inProgress = status' := Except.ok.inj (parses.symm.trans parses')
    exact hnot ⟨rfl, 500, deadline, by decide⟩

end Claims

end AtMostOnce.Ledger.Fields
