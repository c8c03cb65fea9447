/-
The figures that a request makes the server work out.

The expiry of a record goes to the server as a time to live, is kept there as a point in
time, and is told as a time to live again.  The clock counts milliseconds and the record
seconds, so this takes products, sums and differences of 64-bit integers, none of which
saturates: the first that is out of range ends the request.  A diary lists what else matters,
as requests are carried out while the clock goes on between any two questions: the records
that were handed to the ledger, the operations of the server, and what the server held right
after a claim was granted.

A request that has come to its end has come to what it comes to without checks
(`perform_unchecked`).  A record is dated by its engine: as long as the clock has not come to
within its lifetime of the end of the range, every request does come to its end
(`carryOut_returns`); a claim that is made too late does not (`carryOut_overflows`).
-/
import AtMostOnce.Proofs.Fields.Checked
import AtMostOnce.Proofs.Fields.Save

namespace AtMostOnce

namespace FieldStore

namespace Memory

variable {m : Memory} {now time : Int} {key : String} {op : Operation} {e' : Entry} {t : Int}

theorem dropAt_written {old : Option Entry} {fields : Fields} {ttl : Option Int}
    (hw : written now old fields ttl = some e') (ht : e'.dropAt = some t) :
    (∃ e, old = some e ∧ e.dropAt = some t) ∨
      ∃ seconds, ttl = some seconds ∧ t = ahead now seconds := by
  cases ttl with
  | some seconds =>
    rw [written_some] at hw
    obtain ⟨base, -, rfl⟩ := Option.map_eq_some_iff.mp hw
    exact .inr ⟨seconds, rfl, (Option.some.inj ht).symm⟩
  | none =>
    left
    rw [written_none, merged] at hw
    split at hw
    · exact ⟨e', hw, ht⟩
    · cases hw
      cases old with
      | none => cases ht
      | some e => exact ⟨e, rfl, ht⟩

/-- An operation leaves the time at which an entry is dropped, or sets it to the end of its time to
live. -/
theorem dropAt_answer (h : m.Distinct) (he' : entry? (answer now op m).2 now key = some e')
    (ht : e'.dropAt = some t) :
    (∃ e, m.entry? now key = some e ∧ e.dropAt = some t) ∨
      ∃ ttl, op.lifetime? = some ttl ∧ t = ahead now ttl := by
  by_cases hkey : op.key = key
  · cases op with
    | claim key' field value =>
      obtain rfl : key' = key := hkey
      left
      obtain ⟨granted, ha⟩ := claim_answered m now key' field value
      cases granted with
      | false =>
        rw [(claim_refused h ha).2] at he'
        exact ⟨e', he', ht⟩
      | true =>
        obtain ⟨e, rfl, -, hafter⟩ := claim_granted h ha
        rw [hafter] at he'
        cases he'
        cases hheld : m.entry? now key' with
        | none =>
          rw [hheld] at ht
          cases ht
        | some e =>
          rw [hheld] at ht
          exact ⟨e, rfl, ht⟩
    | write key' fields ttl =>
      obtain rfl : key' = key := hkey
      cases hfails : m.writeFails with
      | true =>
        have hsame : entry? (answer now (.write key' fields ttl) m).2 now key' =
            m.entry? now key' := by
          rw [answer_write, if_pos hfails]
          rfl
        rw [hsame] at he'
        exact .inl ⟨e', he', ht⟩
      | false =>
        rw [entry?_write h hfails] at he'
        obtain ⟨hor, -⟩ := Option.filter_eq_some_iff.mp he'
        cases hw : written now (m.entry? now key') fields ttl with
        | none =>
          rw [hw, Option.none_or] at hor
          exact .inl ⟨e', hor, ht⟩
        | some e =>
          rw [hw] at hor
          cases hor
          exact dropAt_written hw ht
    | read key' =>
      rw [entry?_read h] at he'
      exact .inl ⟨e', he', ht⟩
    | lock key' token ttl =>
      obtain rfl : key' = key := hkey
      by_cases hfree : m.entry? now key' = none
      · rw [answer_lock, show (m.live now).get? key' = none from hfree] at he'
        rw [entry?_of_set h (some _) rfl key', if_pos rfl, Option.some_or] at he'
        obtain ⟨hput, -⟩ := Option.filter_eq_some_iff.mp he'
        cases hput
        exact .inr ⟨ttl, rfl, (Option.some.inj ht).symm⟩
      · rw [(lock_refused h hfree).2] at he'
        exact .inl ⟨e', he', ht⟩
    | replace key' fields ttl =>
      obtain rfl : key' = key := hkey
      rw [entry?_replace h] at he'
      obtain ⟨hw, -⟩ := Option.filter_eq_some_iff.mp he'
      rcases dropAt_written hw ht with ⟨e, he, -⟩ | hset
      · cases he
      · exact .inr hset
    | delete key' =>
      obtain rfl : key' = key := hkey
      rw [show entry? (answer now (.delete key') m).2 now key' = none from
        (entry?_of_erase h none rfl key').trans (if_pos rfl)] at he'
      cases he'
  · rw [entry?_answer_of_ne h hkey] at he'
    exact .inl ⟨e', he', ht⟩

/-- No entry is to be dropped later than a time to live can tell. -/
def Near (now : Int) (m : Memory) : Prop :=
  ∀ key e (t : Int), m.entry? now key = some e → e.dropAt = some t → t ≤ now + 9223372036854775000

theorem near_empty (now : Millis) : Near now .empty := nofun

theorem Near.later (near : m.Near now) (h : m.Distinct) (hle : now ≤ time) : m.Near time := by
  intro key e t he ht
  rw [entry?_later h hle] at he
  exact Int.le_trans (near key e t (Option.filter_eq_some_iff.mp he).1 ht) (by omega)

/-- What stays in range leaves no entry too far ahead. -/
theorem Near.answer (near : m.Near now) (h : m.Distinct) (accurate : m.Accurate now op) :
    (answer now op m).2.Near now := by
  intro key e' t he' ht
  rcases dropAt_answer h he' ht with ⟨e, he, ht⟩ | ⟨ttl, httl, rfl⟩
  · exact near key e t he ht
  · obtain ⟨-, hrange, hfits⟩ := accurate.lifetime ttl httl
    rw [ahead_eq ⟨hrange, hfits⟩]
    unfold Word.InRange Word.least Word.greatest at hrange
    omega

/-- The time to live of an entry that is there and not too far ahead can be told. -/
theorem Near.shown (near : m.Near now) (h : m.Distinct) (he : m.entry? now key = some e')
    (ht : e'.dropAt = some t) : Word.InRange (t - now) ∧ Word.InRange (t - now + 500) := by
  have hlive := entry?_isLive h he
  rw [isLive, ht] at hlive
  have hahead : now < t := of_decide_eq_true hlive
  have hnear := near key e' t he ht
  unfold Word.InRange Word.least Word.greatest
  omega

/-! ### What is there after a write -/

theorem isLive_written {old : Option Entry} {fields : Fields} {ttl : Option Int}
    (hold : ∀ e, old = some e → isLive now e = true)
    (fits : ∀ seconds, ttl = some seconds → 1 ≤ seconds ∧ Fits now seconds)
    (hw : written now old fields ttl = some e') : isLive now e' = true := by
  cases ht : e'.dropAt with
  | none => rw [isLive, ht]
  | some t =>
    rcases dropAt_written hw ht with ⟨e, he, hsame⟩ | ⟨seconds, httl, rfl⟩
    · have hlive := hold e he
      rw [isLive, hsame] at hlive
      rw [isLive, ht]
      exact hlive
    · obtain ⟨hpos, hfits⟩ := fits seconds httl
      rw [isLive, ht]
      exact decide_eq_true (lt_ahead hfits hpos)

/-- What has fields put into it is written with any time to live. -/
theorem exists_written {old : Option Entry} {fields : Fields} {e : Entry} (now : Millis)
    (h : merged old fields = some e) (ttl : Option Int) :
    ∃ e', written now old fields ttl = some e' := by
  cases ttl with
  | none => exact ⟨e, (written_none old).trans h⟩
  | some seconds =>
    rw [written_some, h]
    exact ⟨_, rfl⟩

/-- An entry is there still after a write. -/
theorem held_write (h : m.Distinct) {fields : Fields} {ttl : Option Int}
    (accurate : m.Accurate now (.write key fields ttl)) (held : m.entry? now key ≠ none) :
    entry? (answer now (.write key fields ttl) m).2 now key ≠ none := by
  obtain ⟨e, he⟩ := Option.ne_none_iff_exists'.mp held
  cases hfails : m.writeFails with
  | true =>
    rw [answer_write, if_pos hfails]
    exact held
  | false =>
    rw [entry?_write h hfails, he]
    obtain ⟨_, hmerged⟩ := merged_some e fields
    obtain ⟨e', hw⟩ := exists_written now hmerged ttl
    have hlive := isLive_written (by rintro _ ⟨⟩; exact entry?_isLive h he) accurate.lifetime hw
    rw [hw, Option.some_or, Option.filter_some, if_pos hlive]
    exact Option.some_ne_none e'

/-- What takes the place of an entry is there. -/
theorem held_replace (h : m.Distinct) {fields : Fields} {ttl : Option Int} (hfields : fields ≠ [])
    (accurate : m.Accurate now (.replace key fields ttl)) :
    entry? (answer now (.replace key fields ttl) m).2 now key ≠ none := by
  have hmerged : merged none fields = some ⟨Assoc.insertAll [] fields, none⟩ :=
    if_neg (by simpa using hfields)
  obtain ⟨e', hw⟩ := exists_written now hmerged ttl
  have hlive : isLive now e' = true :=
    isLive_written (fun e (he : none = some e) => nomatch he) accurate.lifetime hw
  rw [entry?_replace h, hw, Option.filter_some, if_pos hlive]
  exact Option.some_ne_none e'

end Memory

end FieldStore

namespace Ledger.Fields

open Dialogue FieldStore

/-! ### Diaries -/

/-- What is noted while requests are carried out. -/
inductive Happening where
  /-- A record was handed to the ledger. -/
  | handed (r : Record)
  /-- The server carried out an operation. -/
  | operation (op : Operation)
  /-- A claim of the key was granted while the clock stood still; the server holds so much now. -/
  | granted (time : Millis) (server : FieldStore.Memory) (key : Key)

/-- What was done so far, the last first. -/
abbrev Diary := List Happening

/-- The points in time of every record are in range, every time to live is a second at least, and a
record is there right after it was claimed. -/
structure Diary.Sound (d : Diary) : Prop where
  record : ∀ r, .handed r ∈ d → (∀ x, r.expiry = some x → Word.InRange x) ∧
    ∀ x, r.deadline = some x → Word.InRange x
  /-- The time to live of a record or of a lock. -/
  lifetime : ∀ op ttl, .operation op ∈ d → op.lifetime? = some ttl → 1 ≤ ttl
  present : ∀ t m key, .granted t m key ∈ d → m.entry? t key.text ≠ none

/-- The server, how many questions were answered so far, and what was done. -/
structure Premises where
  server : FieldStore.Memory
  asked : Nat
  diary : Diary

/-- What is left to chance: what the clock says after so many questions, and the token that is drawn
then. -/
structure Luck where
  clock : Nat → Millis
  token : Nat → String

/-- What was done is sound, and the server can serve another request. -/
structure Premises.Sound (luck : Luck) (s : Premises) : Prop where
  diary : s.diary.Sound
  distinct : s.server.Distinct
  near : s.server.Near (luck.clock s.asked)

/-- The premises after an answer. -/
def Premises.next (s : Premises) (d : Diary) : Premises :=
  { s with asked := s.asked + 1, diary := d ++ s.diary }

/-- How the questions of a request are answered, over any arithmetic. -/
def Luck.answerM {M : Type → Type} [Monad M] [Arithmetic M] (luck : Luck) :
    (q : Request) → StateT Premises M q.Answer
  | .now, s => return (luck.clock s.asked, s.next [])
  | .token, s => return (luck.token s.asked, s.next [])
  | .store op, s => do
    let answered ← FieldStore.Memory.answerM (luck.clock s.asked) op s.server
    return (answered.1, { s.next [.operation op] with server := answered.2 })

/-- How the questions of a request are answered if figures are not checked. -/
def Luck.answer (luck : Luck) (q : Request) (s : Premises) : q.Answer × Premises :=
  Id.run (luck.answerM q s)

/-- The record that comes with a request. -/
def handing (q : Ledger.Request) : Diary := q.record?.toList.map .handed

/-- What is noted of a claim that was granted in no time. -/
def granting (luck : Luck) (s s' : Premises) : (q : Ledger.Request) → q.Answer → Diary
  | .claim r, .ok .created =>
    if luck.clock s'.asked = luck.clock s.asked then
      [.granted (luck.clock s'.asked) s'.server r.key]
    else []
  | _, _ => []

/-- Answers a request up to the first figure out of range. -/
def Luck.perform (luck : Luck) (names : FieldNames) (q : Ledger.Request) :
    StateT Premises (Except Overflow) q.Answer :=
  (checked names q).answerChecked luck.answerM

/-- Carries out a request, and notes what it comes with and what it has come to. -/
def Luck.carryOut (luck : Luck) (names : FieldNames) (q : Ledger.Request) :
    StateT Premises (Except Overflow) q.Answer := fun s => do
  let carried ← luck.perform names q { s with diary := handing q ++ s.diary }
  return (carried.1,
    { carried.2 with diary := granting luck s carried.2 q carried.1 ++ carried.2.diary })

/-! ### Clocks and dates -/

/-- The clock does not go back, and stays between the epoch and a point in time. -/
structure Luck.Steady (luck : Luck) (horizon : Int) : Prop where
  forward : ∀ i j, i ≤ j → luck.clock i ≤ luck.clock j
  since : ∀ i, 0 ≤ luck.clock i
  upTo : ∀ i, luck.clock i ≤ horizon

/-- The record was dated at a point in time, to count for so many seconds. -/
structure Dated (lasts : Nat) (time : Millis) (r : Record) : Prop where
  expiry : r.expiry = some (Word.addClamped (secondsOf time) (lifetime lasts))
  deadline : ∀ d, r.deadline = some d → Word.InRange d

/-- A time to live of a second at least, and of so many seconds at most. -/
def Moderate (lasts : Nat) (ttl : Option Int) : Prop := ∃ n, ttl = some n ∧ 1 ≤ n ∧ n ≤ lasts

/-- The clock tells a time that is not before another one, and in range. -/
def TellsFrom (since t : Millis) : Prop := since ≤ t ∧ t ≤ Word.greatest

section

variable {lasts : Nat} {since : Int} {r : Record}

theorem Dated.expiry_bounds {x : Int} (h : Dated lasts since r) (hsince : 0 ≤ since)
    (hx : r.expiry = some x) : 0 ≤ x ∧ x ≤ secondsOf since + lasts ∧ x ≤ Word.greatest := by
  obtain rfl : Word.addClamped (secondsOf since) (lifetime lasts) = x :=
    Option.some.inj (h.expiry.symm.trans hx)
  unfold Word.addClamped lifetime Word.clamp Word.least Word.greatest secondsOf
  omega

/-- What is left of a record stays in range whenever it is worked out. -/
theorem Dated.remains (h : Dated lasts since r) (hsince : 0 ≤ since) :
    Remains (TellsFrom since) r := by
  intro x (t : Int) hx ht
  obtain ⟨hle, hrange⟩ : since ≤ t ∧ t ≤ Word.greatest := ht
  obtain ⟨hpos, -, hmost⟩ := h.expiry_bounds hsince hx
  unfold Word.InRange Word.least Word.greatest secondsOf at *
  omega

/-- The time to live of a record that was dated before is a second at least, and no longer than the
record is to count. -/
theorem Dated.lives (h : Dated lasts since r) (hlasts : 1 ≤ lasts) (hsince : 0 ≤ since) :
    Lives (Moderate lasts) (TellsFrom since) r := by
  unfold Lives ttlOf ttlM
  rw [h.expiry]
  refine ⟨trivial, fun (t : Int) ht => ⟨_, rfl, ?_⟩⟩
  rw [Word.wrap_eq (h.remains hsince _ t h.expiry ht)]
  obtain ⟨-, hx, -⟩ := h.expiry_bounds hsince h.expiry
  obtain ⟨hle, -⟩ : since ≤ t ∧ t ≤ Word.greatest := ht
  unfold secondsOf at hx ⊢
  omega

end

/-! ### What happens in range -/

/-- The record was dated, the time to live is a second at least, or the record is there. -/
def Happening.Fine (lasts : Nat) : Happening → Prop
  | .handed r => ∃ since, 0 ≤ since ∧ Dated lasts since r
  | .operation op => ∀ ttl, op.lifetime? = some ttl → 1 ≤ ttl
  | .granted t m key => m.entry? t key.text ≠ none

theorem Diary.sound_of_fine {lasts : Nat} {d : Diary} (fine : ∀ x ∈ d, x.Fine lasts) :
    d.Sound where
  record r hr := by
    obtain ⟨since, -, dated⟩ := fine _ hr
    refine ⟨fun x hx => ?_, dated.deadline⟩
    rw [← Option.some.inj (dated.expiry.symm.trans hx)]
    exact Word.clamp_inRange _
  lifetime op ttl hop := fine _ hop ttl
  present t m key hgranted := fine _ hgranted

/-- What is there stays in range as the clock goes on. -/
structure Premises.Fine (luck : Luck) (lasts : Nat) (s : Premises) : Prop where
  distinct : s.server.Distinct
  near : s.server.Near (luck.clock s.asked)
  happenings : ∀ x ∈ s.diary, x.Fine lasts

section

variable {luck : Luck} {lasts : Nat} {horizon : Int} {names : FieldNames} {s : Premises}

theorem Premises.Fine.sound (fine : s.Fine luck lasts) : s.Sound luck :=
  ⟨Diary.sound_of_fine fine.happenings, fine.distinct, fine.near⟩

/-- The clock does not come to within the lifetime of the end of the range. -/
theorem fits_of_moderate {n t : Int} (steady : luck.Steady horizon)
    (room : horizon + 1000 * lasts ≤ Word.greatest) {i : Nat} (ht : t = luck.clock i)
    (hpos : 1 ≤ n) (hle : n ≤ lasts) : FieldStore.Memory.Fits t n := by
  have hsince : 0 ≤ t := ht ▸ steady.since i
  have hup : t ≤ horizon := ht ▸ steady.upTo i
  unfold FieldStore.Memory.Fits Word.InRange Word.least Word.greatest at *
  omega

/-- What is passed to the server is moderate, and what the server shows is near. -/
theorem Premises.Fine.accurate (fine : s.Fine luck lasts) (steady : luck.Steady horizon)
    (room : horizon + 1000 * lasts ≤ Word.greatest) {op : Operation}
    (hop : Request.Lives (Moderate lasts) (.store op)) :
    s.server.Accurate (luck.clock s.asked) op where
  lifetime ttl httl := by
    have hmoderate : 1 ≤ ttl ∧ ttl ≤ lasts := by
      cases op with
      | write key fields passed =>
        obtain ⟨n, hn, hbounds⟩ := hop
        cases hn.symm.trans httl
        exact hbounds
      | replace key fields passed =>
        obtain ⟨n, hn, hbounds⟩ := hop
        cases hn.symm.trans httl
        exact hbounds
      | lock key token seconds =>
        obtain ⟨-, ⟨n, rfl, hpos, hle⟩, hseconds⟩ := hop
        obtain rfl : seconds = ttl := Option.some.inj httl
        subst hseconds
        show 1 ≤ min n 10 ∧ min n 10 ≤ (lasts : Int)
        omega
      | claim key field value => cases httl
      | read key => cases httl
      | delete key => cases httl
    exact ⟨hmoderate.1, fits_of_moderate steady room rfl hmoderate.1 hmoderate.2⟩
  shown key e t _ he ht := fine.near.shown fine.distinct he ht

theorem Premises.Fine.next (fine : s.Fine luck lasts) (steady : luck.Steady horizon)
    {d : Diary} (fresh : ∀ x ∈ d, x.Fine lasts) : (s.next d).Fine luck lasts where
  distinct := fine.distinct
  near := fine.near.later fine.distinct (steady.forward _ _ (Nat.le_succ _))
  happenings x hmem := (List.mem_append.mp hmem).elim (fresh x) (fine.happenings x)

/-- An answer leaves everything in range. -/
theorem Premises.Fine.answer (fine : s.Fine luck lasts) (steady : luck.Steady horizon)
    (room : horizon + 1000 * lasts ≤ Word.greatest) {q : Request}
    (hq : q.Lives (Moderate lasts)) : (luck.answer q s).2.Fine luck lasts := by
  cases q with
  | now => exact fine.next steady (List.forall_mem_nil _)
  | token => exact fine.next steady (List.forall_mem_nil _)
  | store op =>
    have accurate := fine.accurate steady room hq
    have hnext := fine.next steady (d := [.operation op]) fun x hmem =>
      List.mem_singleton.mp hmem ▸ fun ttl httl => (accurate.lifetime ttl httl).1
    have hd := FieldStore.Memory.answer_distinct fine.distinct (luck.clock s.asked) op
    exact ⟨hd, (fine.near.answer fine.distinct accurate).later hd
      (steady.forward _ _ (Nat.le_succ _)), hnext.happenings⟩

/-- A question is answered as if figures were not checked, up to an overflow. -/
theorem gives_reply {strict : Prop} (luck : Luck) (q : Request) (s : Premises)
    (accurate : strict → ∀ op, q = .store op → s.server.Accurate (luck.clock s.asked) op) :
    Gives strict (luck.answerM q s : Except Overflow (q.Answer × Premises)) (luck.answer q s) := by
  cases q with
  | now => exact .inl rfl
  | token => exact .inl rfl
  | store op =>
    exact (FieldStore.Memory.gives_answer (luck.clock s.asked) op s.server
      fun hs => accurate hs op rfl).bind (.inl rfl)

theorem asked_answer (luck : Luck) (q : Request) (s : Premises) :
    (luck.answer q s).2.asked = s.asked + 1 := by cases q <;> rfl

/-! ### Claims in no time -/

/-- Whoever has the key is there, if no time has passed since. -/
def Present (luck : Luck) (start : Nat) (key : Key) (s : Premises) (phase : SavePhase) : Prop :=
  luck.clock s.asked = luck.clock start → phase = .claimed ∨ phase = .taken →
    s.server.entry? (luck.clock s.asked) key.text ≠ none

/-- A claim leaves in place what it has taken. -/
theorem Present.answer {start : Nat} {r : Record} {phase : SavePhase} {q : Request}
    (h : Present luck start r.key s phase) (fine : s.Fine luck lasts)
    (steady : luck.Steady horizon) (room : horizon + 1000 * lasts ≤ Word.greatest)
    (hstart : start ≤ s.asked) (hq : q.Lives (Moderate lasts))
    (hallows : allows names r phase q) :
    Present luck start r.key (luck.answer q s).2 (phase.after q (luck.answer q s).1) := by
  intro htime hphase
  rw [asked_answer] at htime ⊢
  -- the clock has stood still, so the entry is looked at in the moment of the operation
  have hsame : luck.clock (s.asked + 1) = luck.clock s.asked :=
    Int.le_antisymm (htime ▸ steady.forward _ _ hstart) (steady.forward _ _ (Nat.le_succ _))
  have hthen : luck.clock s.asked = luck.clock start := hsame.symm.trans htime
  rw [hsame]
  cases q with
  | now =>
    refine h hthen ?_
    cases phase <;> first | exact hphase | simp [SavePhase.after] at hphase
  | token => exact h hthen hphase
  | store op =>
    have accurate := fine.accurate steady room hq
    cases op with
    | claim key field value =>
      obtain ⟨rfl, rfl, rfl, rfl⟩ := hallows
      obtain ⟨granted, ha⟩ := FieldStore.Memory.claim_answered s.server (luck.clock s.asked)
        r.key.text names.status Status.inProgress.name
      cases granted with
      | true =>
        obtain ⟨e, -, -, hafter⟩ := FieldStore.Memory.claim_granted fine.distinct ha
        exact fun hnone => nomatch hafter.symm.trans hnone
      | false =>
        have hrefused : (luck.answer
            (.store (.claim r.key.text names.status Status.inProgress.name)) s).1 = .ok false := ha
        rw [hrefused] at hphase
        rcases hphase with hphase | hphase <;> cases hphase
    | write key fields ttl =>
      obtain ⟨rfl, rfl, rfl⟩ := hallows
      exact FieldStore.Memory.held_write fine.distinct accurate (h hthen (.inl rfl))
    | read key =>
      obtain ⟨rfl, rfl⟩ := hallows
      rcases hphase with hphase | hphase <;> cases hphase
    | lock key token ttl =>
      obtain ⟨⟨fields, shown, times, rfl⟩, -⟩ := hallows
      generalize (luck.answer (.store (.lock key token ttl)) s).1 = a at hphase
      rcases a with _ | _ | _ <;> rcases hphase with hphase | hphase <;> cases hphase
    | replace key fields ttl =>
      obtain ⟨-, rfl, rfl⟩ := hallows
      exact FieldStore.Memory.held_replace fine.distinct (List.cons_ne_nil _ _) accurate
    | delete key => exact hallows.elim

/-! ### Requests that come to their end -/

/-- The clock tells the time, and the server counts in milliseconds. -/
theorem shows_answer {told : Millis → Prop} (htold : told (luck.clock s.asked)) (q : Request) :
    q.Shows told (luck.answer q s).1 := by
  cases q with
  | now => exact htold
  | token => trivial
  | store op =>
    cases op with
    | read key => exact s.server.ttl_within (luck.clock s.asked) key
    | _ => trivial

/-- **A request that has come to its end has come to what it comes to if figures are not
checked.** -/
theorem perform_unchecked {q : Ledger.Request} {a : q.Answer} {s' : Premises}
    (h : luck.perform names q s = .ok (a, s')) :
    (perform names q).answerBy (m := StateM Premises) luck.answer s = (a, s') := by
  -- nothing is taken for granted, so the clock may tell any time
  have agrees : Agrees False (Request.Shows fun _ => True) (checked names q) (perform names q) :=
    checked_agrees False.elim names False.elim
  refine agrees.returned (fun q s p hp => ?_) (answerChecked_eq_ok.mp h)
  have hsame : luck.answer q s = p := (gives_reply luck q s False.elim).of_ok hp
  exact ⟨hsame, hsame ▸ shows_answer trivial q⟩

theorem Request.Shows.tells {told : Millis → Prop} {q : Request} {a : q.Answer}
    (h : q.Shows told a) : q.Tells told a := by
  cases q with
  | now => exact h
  | token => trivial
  | store op => trivial

/-- The premises when a request that began earlier is still carried out. -/
structure Premises.Carries (luck : Luck) (lasts : Nat) (start : Nat) (s : Premises) : Prop where
  fine : s.Fine luck lasts
  started : start ≤ s.asked

theorem Premises.Carries.answer {start : Nat} {q : Request} (h : s.Carries luck lasts start)
    (steady : luck.Steady horizon) (room : horizon + 1000 * lasts ≤ Word.greatest)
    (hq : q.Lives (Moderate lasts)) : (luck.answer q s).2.Carries luck lasts start where
  fine := h.fine.answer steady room hq
  started := by
    rw [asked_answer]
    exact Nat.le_succ_of_le h.started

section

variable (names) {since : Millis} {τ : Type} {P : Protocol Request Request.Answer τ}
  {q : Ledger.Request} {ends : τ → q.Answer → Prop} {phase : τ}
  (fine : s.Fine luck lasts) (steady : luck.Steady horizon)
  (room : horizon + 1000 * lasts ≤ Word.greatest) (hpos : 0 ≤ since)
  (hsince : since ≤ luck.clock s.asked)

include fine steady room hpos hsince

/-- A request that passes on moderate times to live comes to its end, as its protocol says. -/
theorem checked_returns (remains : ∀ r, q.record? = some r → Remains (TellsFrom since) r)
    (follows : (perform names q).Follows P ends phase) (kept : Premises → τ → Prop)
    (h0 : kept s phase)
    (moderate : ∀ q phase, P.allows phase q → q.Lives (Moderate lasts))
    (step : ∀ q s' phase, s'.Carries luck lasts s.asked → kept s' phase → P.allows phase q →
      q.Shows (TellsFrom since) (luck.answer q s').1 →
        P.accepts q (luck.answer q s').1 ∧
          kept (luck.answer q s').2 (P.after phase q (luck.answer q s').1)) :
    ∃ a s' phase', luck.perform names q s = .ok (a, s') ∧
      s'.Carries luck lasts s.asked ∧ kept s' phase' ∧ ends phase' a := by
  have agrees : Agrees True (Request.Shows (TellsFrom since)) (checked names q)
      (perform names q) := by
    refine checked_agrees (fun _ t ht => ⟨?_, ht.2⟩) names fun _ => remains
    exact Int.le_trans (by decide) (Int.le_trans hpos ht.1)
  obtain ⟨x, s', phase', hrun, ⟨hcarries, hkept⟩, a, rfl, hends⟩ :=
    (agrees.follows trivial follows).returns
    (fun s' phase => s'.Carries luck lasts s.asked ∧ kept s' phase) ⟨⟨fine, Nat.le_refl _⟩, h0⟩
    fun q s' phase ⟨hcarries, hkept⟩ hq => by
      have hlives := moderate q phase hq
      have hshows : q.Shows (TellsFrom since) (luck.answer q s').1 :=
        shows_answer ⟨Int.le_trans hsince (steady.forward _ _ hcarries.started),
          Int.le_trans (steady.upTo _) (by omega)⟩ q
      obtain ⟨haccepts, hkept'⟩ := step q s' phase hcarries hkept hq hshows
      have accurate : ∀ op, q = .store op → s'.server.Accurate (luck.clock s'.asked) op := by
        rintro op rfl
        exact hcarries.fine.accurate steady room hlives
      exact ⟨_, _, (gives_reply luck q s' fun _ => accurate).eq trivial, ⟨hshows, haccepts⟩,
        hcarries.answer steady room hlives, hkept'⟩
  exact ⟨a, s', phase', answerChecked_eq_ok.mpr hrun, hcarries, hkept, hends⟩

variable (lives : ∀ r, q.record? = some r → Lives (Moderate lasts) (TellsFrom since) r)
  (remains : ∀ r, q.record? = some r → Remains (TellsFrom since) r)

include lives remains

/-- A request leaves everything in range if its record lives long enough, and not too long. -/
theorem perform_returns :
    ∃ a s', luck.perform names q s = .ok (a, s') ∧
      s'.Carries luck lasts s.asked := by
  obtain ⟨a, s', -, hrun, hcarries, -⟩ := checked_returns names fine steady room hpos hsince remains
    (living_perform lives) (fun _ _ => True) trivial (fun _ _ hq => hq)
    fun _ _ _ _ _ _ hshows => ⟨hshows.tells, trivial⟩
  exact ⟨a, s', hrun, hcarries⟩

end

section

variable (names) {since : Millis} {r : Record} (fine : s.Fine luck lasts)
  (steady : luck.Steady horizon) (room : horizon + 1000 * lasts ≤ Word.greatest)
  (hpos : 0 ≤ since) (hsince : since ≤ luck.clock s.asked)
  (lives : Lives (Moderate lasts) (TellsFrom since) r) (remains : Remains (TellsFrom since) r)

include fine steady room hpos hsince lives remains

/-- A claim that is granted in no time is there. -/
theorem claim_returns :
    ∃ a s', luck.perform names (.claim r) s = .ok (a, s') ∧
      s'.Carries luck lasts s.asked ∧
        (a = .ok .created → Present luck s.asked r.key s' .taken) := by
  obtain ⟨a, s', ⟨_, phase⟩, hrun, hcarries, present, -, hends⟩ :=
    checked_returns names fine steady room hpos hsince
      (q := .claim r) (fun r' hr' => Option.some.inj hr' ▸ remains)
      (Follows.both (living_claim lives) (claim_follows names r))
      (fun s' p => Present luck s.asked r.key s' p.2) (fun _ hphase => by
        rcases hphase with h | h <;> cases h)
      (fun _ _ hq => hq.1) fun _ _ _ hcarries present hq hshows =>
        ⟨⟨hshows.tells, trivial⟩,
          present.answer hcarries.fine steady room hcarries.started hq.1 hq.2⟩
  refine ⟨a, s', hrun, hcarries, fun granted => ?_⟩
  obtain rfl : phase = .taken := hends.mp granted
  exact present

end

theorem mem_granting {r : Record} {a : Except Error Outcome} {s' : Premises} {x : Happening}
    (h : x ∈ granting luck s s' (.claim r) a) :
    a = .ok .created ∧ luck.clock s'.asked = luck.clock s.asked ∧
      x = .granted (luck.clock s'.asked) s'.server r.key := by
  rcases a with e | _ | _
  · cases h
  · change x ∈ if _ then _ else [] at h
    split at h
    · rename_i htime
      exact ⟨rfl, htime, List.mem_singleton.mp h⟩
    · cases h
  · cases h

/-- **A request for a record that was dated before comes to its end, and leaves everything in
range.** -/
theorem carryOut_returns (names : FieldNames) {q : Ledger.Request} (fine : s.Fine luck lasts)
    (steady : luck.Steady horizon) (hlasts : 1 ≤ lasts)
    (room : horizon + 1000 * lasts ≤ Word.greatest)
    (dated : ∀ r, q.record? = some r →
      ∃ since, 0 ≤ since ∧ since ≤ luck.clock s.asked ∧ Dated lasts since r) :
    ∃ a s', luck.carryOut names q s = .ok (a, s') ∧ s'.Carries luck lasts s.asked := by
  obtain ⟨since, hpos, hle, hdated⟩ : ∃ since, 0 ≤ since ∧ since ≤ luck.clock s.asked ∧
      ∀ r, q.record? = some r → Dated lasts since r := by
    cases hq : q.record? with
    | none => exact ⟨_, steady.since _, Int.le_refl _, nofun⟩
    | some r =>
      obtain ⟨since, hpos, hle, hdated⟩ := dated r hq
      exact ⟨since, hpos, hle, fun r' hr' => Option.some.inj hr' ▸ hdated⟩
  have lives : ∀ r, q.record? = some r → Lives (Moderate lasts) (TellsFrom since) r :=
    fun r hr => (hdated r hr).lives hlasts hpos
  have remains : ∀ r, q.record? = some r → Remains (TellsFrom since) r :=
    fun r hr => (hdated r hr).remains hpos
  -- the record is handed over before anything is asked
  have fine' : Premises.Fine luck lasts { s with diary := handing q ++ s.diary } := by
    refine ⟨fine.distinct, fine.near, fun x hmem => ?_⟩
    rcases List.mem_append.mp hmem with hhanded | hbefore
    · obtain ⟨r, hr, rfl⟩ := List.mem_map.mp hhanded
      exact ⟨since, hpos, hdated r (Option.mem_toList.mp hr)⟩
    · exact fine.happenings x hbefore
  obtain ⟨a, s', hrun, carries, granted⟩ : ∃ a s',
      luck.perform names q { s with diary := handing q ++ s.diary } = .ok (a, s') ∧
        s'.Carries luck lasts s.asked ∧ ∀ x ∈ granting luck s s' q a, x.Fine lasts := by
    cases q with
    | claim r =>
      obtain ⟨a, s', hrun, carries, present⟩ := claim_returns names fine' steady room hpos hle
        (lives r rfl) (remains r rfl)
      refine ⟨a, s', hrun, carries, fun x hgranted => ?_⟩
      obtain ⟨created, htime, rfl⟩ := mem_granting hgranted
      exact present created htime (.inr rfl)
    | _ =>
      obtain ⟨a, s', hrun, carries⟩ := perform_returns names fine' steady room hpos hle lives
        remains
      exact ⟨a, s', hrun, carries, List.forall_mem_nil _⟩
  refine ⟨a, { s' with diary := granting luck s s' q a ++ s'.diary }, ?_,
    ⟨carries.fine.distinct, carries.fine.near, fun x hmem => ?_⟩, carries.started⟩
  · show (luck.perform names q _ >>= _) = _
    rw [hrun]
    rfl
  · exact (List.mem_append.mp hmem).elim (granted x) (carries.fine.happenings x)

/-! ### Claims that do not come to their end -/

section

variable {β : Type} {r : Record} {expiry : Int}

/-- An operation of the server comes before what follows it. -/
theorem answerBy_store (op : Operation) (next : op.Answer → ExceptT Overflow Action β) :
    (liftM (store op) >>= next : ExceptT Overflow Action β).run.answerBy
        (m := StateT Premises (Except Overflow)) luck.answerM s =
      (FieldStore.Memory.answerM (luck.clock s.asked) op s.server >>= fun p =>
        (next p.1).run.answerBy (m := StateT Premises (Except Overflow)) luck.answerM
          { s.next [.operation op] with server := p.2 }) := by
  show ((FieldStore.Memory.answerM (luck.clock s.asked) op s.server >>= _ : Except Overflow _) >>=
    _) = _
  cases FieldStore.Memory.answerM (M := Except Overflow) (luck.clock s.asked) op s.server <;> rfl

/-- The time to live of a record is worked out from the time that is told. -/
theorem answerBy_ttl (hexpiry : r.expiry = some expiry)
    (hleft : Word.InRange (expiry - secondsOf (luck.clock s.asked)))
    (next : Option Int → ExceptT Overflow Action β) :
    (ttlM r >>= next : ExceptT Overflow Action β).run.answerBy
        (m := StateT Premises (Except Overflow)) luck.answerM s =
      (next (some (max 1 (expiry - secondsOf (luck.clock s.asked))))).run.answerBy
        (m := StateT Premises (Except Overflow)) luck.answerM (s.next []) := by
  unfold ttlM
  rw [hexpiry]
  show (((figure (expiry - secondsOf (luck.clock s.asked)) : ExceptT Overflow Action Int) >>=
    fun n => pure (some (max 1 n))) >>= next).run.answerBy
      (m := StateT Premises (Except Overflow)) luck.answerM (s.next []) = _
  rw [show (figure (expiry - secondsOf (luck.clock s.asked)) : ExceptT Overflow Action Int) =
    pure _ from if_pos hleft]
  rfl

/-- On an empty server a claim overflows if the end of the time to live of its record cannot be
told. -/
theorem claim_overflows (names : FieldNames) (hempty : s.server = .empty)
    (hexpiry : r.expiry = some expiry)
    (hleft : Word.InRange (expiry - secondsOf (luck.clock (s.asked + 1))))
    (unfit : ¬ FieldStore.Memory.Fits (luck.clock (s.asked + 2))
      (max 1 (expiry - secondsOf (luck.clock (s.asked + 1))))) :
    ∃ overflow, (checked names (.claim r)).answerBy (m := StateT Premises (Except Overflow))
      luck.answerM s = .error overflow := by
  -- once the status has been claimed, the server holds nothing else
  let claimed : FieldStore.Memory :=
    ⟨[(r.key.text, ⟨[(names.status, Status.inProgress.name)], none⟩)], false⟩
  have hclaim : (FieldStore.Memory.answerM (luck.clock s.asked)
      (.claim r.key.text names.status Status.inProgress.name) s.server :
        Except Overflow (Except Error Bool × FieldStore.Memory)) = .ok (.ok true, claimed) := by
    rw [hempty]
    rfl
  have held : claimed.entry? (luck.clock (s.asked + 2)) r.key.text = some _ := if_pos rfl
  obtain ⟨overflow, hwrite⟩ := FieldStore.Memory.write_overflows (claimFields names r) held rfl
    unfit
  refine ⟨overflow, ?_⟩
  show (claimM names r : ExceptT Overflow Action (Except Error Outcome)).run.answerBy
    (m := StateT Premises (Except Overflow)) luck.answerM s = _
  rw [claimM, answerBy_store, hclaim]
  show (ttlM r >>= _ : ExceptT Overflow Action (Except Error Outcome)).run.answerBy
    (m := StateT Premises (Except Overflow)) luck.answerM _ = _
  rw [answerBy_ttl hexpiry hleft, answerBy_store]
  show (FieldStore.Memory.answerM (luck.clock (s.asked + 2)) (.write r.key.text _
    (some (max 1 (expiry - secondsOf (luck.clock (s.asked + 1)))))) claimed >>= _ :
      Except Overflow _) = _
  rw [hwrite]
  rfl

theorem carryOut_overflows (hempty : s.server = .empty) (hexpiry : r.expiry = some expiry)
    (hleft : Word.InRange (expiry - secondsOf (luck.clock (s.asked + 1))))
    (unfit : ¬ FieldStore.Memory.Fits (luck.clock (s.asked + 2))
      (max 1 (expiry - secondsOf (luck.clock (s.asked + 1))))) :
    ∃ overflow, luck.carryOut names (.claim r) s = .error overflow := by
  obtain ⟨overflow, hclaim⟩ := claim_overflows names
    (s := { s with diary := handing (.claim r) ++ s.diary }) hempty hexpiry hleft unfit
  refine ⟨overflow, ?_⟩
  show (((checked names (.claim r)).answerBy (m := StateT Premises (Except Overflow)) luck.answerM
    { s with diary := handing (.claim r) ++ s.diary } >>= _) >>= _) = _
  rw [hclaim]
  rfl

end

end

end Ledger.Fields

end AtMostOnce
