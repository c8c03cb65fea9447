/-
What a server shows of a record while it is there.

The expiry of a record is kept as a time to live only, which is counted from a millisecond and
told in rounded seconds.  Whoever finds the record adds these to the second of the clock.  So
what is found is the record as it was written, but for a second of its expiry; and as long as
it is there at all, it is found in force (`Copy.shows`).

A claim and a completion each leave such a copy.  A completion knows of no deadline, and
leaves the one of the claim.
-/
import AtMostOnce.Proofs.Fields.Mirror

namespace AtMostOnce.Ledger.Fields

open FieldStore

variable {names : FieldNames} {now time : Millis} {token : String} {m : FieldStore.Memory}
  {key : Key} {r c : Record} {e : Entry}

/-- The answer is the record, found in force, but for a second of its expiry. -/
def Shows (r : Record) (now : Millis) (answer : Except Error Record) : Prop :=
  ∃ expiry shown : Int, r.expiry = some expiry ∧ answer = .ok { r with expiry := some shown } ∧
    expiry - 1 ≤ shown ∧ shown ≤ expiry + 1 ∧
    Record.isExpired { r with expiry := some shown } (secondsOf now) = false

/-- **A copy is shown as long as it is there.** -/
theorem Copy.shows (h : Copy names key now r e) (hdeadline : deadline? names e.fields = r.deadline)
    (hm : m.Sound) (he : m.entry? now key.text = some e) :
    Shows r now (alone now token (find names key) m).1 := by
  obtain ⟨expiry, shown, hexpiry, hmade, hforce, hle, hle'⟩ := h.made hm he
  have hfilled : ¬ e.fields.isEmpty = true := by
    intro hempty
    have hstatus := h.status
    rw [List.isEmpty_iff.mp hempty] at hstatus
    cases hstatus
  refine ⟨expiry, shown, hexpiry, ?_, by omega, by omega, decide_eq_false (Int.not_lt.mpr hforce)⟩
  rw [alone_find, Memory.fields?, he, Option.map_some, Option.getD_some]
  dsimp only
  rw [if_neg hfilled, hmade, hdeadline]

/-- What is left under a key is shown later, unless it was dropped by then. -/
theorem Copy.shows_later (h : Copy names key now r e)
    (hdeadline : deadline? names e.fields = r.deadline) (hm : m.Sound)
    (he : m.entry? now key.text = some e) (hle : now ≤ time)
    (present : m.entry? time key.text ≠ none) :
    Shows r time (alone time token (find names key) m).1 := by
  obtain ⟨e', he'⟩ := Option.ne_none_iff_exists'.mp present
  have hsame := he'
  rw [Memory.entry?_later hm.distinct hle, he] at hsame
  obtain rfl := Option.some.inj (Option.filter_eq_some_iff.mp hsame).1
  exact (h.stays hle).shows hdeadline hm he'

/-- The deadline in what a completion leaves is the one that was there. -/
theorem deadline_completedEntry (hnames : Distinct names) (held : Option Entry) :
    deadline? names (completedEntry names now held c).fields =
      held.bind fun e => deadline? names e.fields := by
  rw [deadline?, completedEntry, deadline_completed hnames]
  cases held <;> rfl

/-- The deadline that is left of a record, if it was not dropped. -/
def keptDeadline (m : FieldStore.Memory) (now : Millis) (r : Record) : Option Millis :=
  if m.entry? now r.key.text = none then none else r.deadline

/-- What was claimed is kept as it is until it is dropped. -/
theorem Begun.kept (begun : Begun now r) (hnames : Distinct names) (hm : m.Sound)
    (he : m.entry? now r.key.text = some (entryOf names now r)) (hle : now ≤ time) :
    ((m.entry? time r.key.text).bind fun e => deadline? names e.fields) =
      keptDeadline m time r := by
  unfold keptDeadline
  rw [Memory.entry?_later hm.distinct hle, he, Option.filter_some]
  split
  · exact begun.deadline hnames
  · rfl

/-- What a completion leaves is shown as long as it is there, with the deadline that it found. -/
theorem Ended.shows_later (ended : Ended now c) (hnames : Distinct names) (hm : m.Sound)
    (hhash : c.payloadHash ≠ none) {completed : FieldStore.Memory}
    (hcompleted : completed = (alone now token (perform names (.complete c)) m).2)
    (hle : now ≤ time) (present : completed.entry? time c.key.text ≠ none) (token' : String) :
    Shows { c with deadline := (m.entry? now c.key.text).bind fun e => deadline? names e.fields }
      time (alone time token' (find names c.key) completed).1 := by
  have sound : completed.Sound := hcompleted ▸ sound_alone hm now token _
  have hentry : completed.entry? now c.key.text =
      some (completedEntry names now (m.entry? now c.key.text) c) := by
    rw [hcompleted]
    exact entry?_complete names token hm ended.counts
  generalize hdeadline : ((m.entry? now c.key.text).bind fun e => deadline? names e.fields) = kept
  -- a completion does not write the deadline of its record, so any may be put there
  have copy : Copy names c.key now { c with deadline := kept }
      (completedEntry names now (m.entry? now c.key.text) c) :=
    Ended.copy hnames (r := { c with deadline := kept })
      ⟨ended.counts, ended.status, ended.data, ended.payloadHash⟩
      fun hnone => absurd hnone hhash
  exact copy.shows_later ((deadline_completedEntry hnames _).trans hdeadline) sound hentry hle
    present

/-- **A record is found as it was written, but for a second of its expiry.**  Its key was vacant
when it was claimed, and no sum of times leaves the range.  Then the claim is granted, and whenever
the record is looked for while it is there, it is found in force.  So is the completed record, with
the deadline of the claim unless that had been dropped before. -/
theorem record_round_trip (sound : m.Sound) (hnames : Distinct names) (begun : Begun now r)
    (vacant : m.entry? now r.key.text = none) {claimed : FieldStore.Memory}
    (hclaimed : claimed = (alone now token (perform names (.claim r)) m).2) :
    (alone now token (perform names (.claim r)) m).1 = .ok .created ∧
      (∀ t token, now ≤ t → claimed.entry? t r.key.text ≠ none →
        Shows r t (alone t token (perform names (.find r.key)) claimed).1) ∧
      ∀ time token c completed, now ≤ time → Ended time c → c.key = r.key → c.payloadHash ≠ none →
        completed = (alone time token (perform names (.complete c)) claimed).2 →
        (alone time token (perform names (.complete c)) claimed).1 = .ok () ∧
          ∀ t token, time ≤ t → completed.entry? t r.key.text ≠ none →
            Shows { c with deadline := keptDeadline claimed time r } t
              (alone t token (perform names (.find r.key)) completed).1 := by
  obtain ⟨hgranted, hentry⟩ := claim_vacant names token sound begun.counts vacant
  have hsound : claimed.Sound := hclaimed ▸ sound_alone sound now token _
  have hentry : claimed.entry? now r.key.text = some (entryOf names now r) := by
    rw [hclaimed]
    exact hentry
  refine ⟨hgranted, ?_, ?_⟩
  · intro t token hle present
    exact (begun.copy hnames).shows_later (begun.deadline hnames) hsound hentry hle present
  · intro time token c completed hle ended hkey hhash hcompleted
    refine ⟨?_, ?_⟩
    · rw [alone_complete]
      exact (Memory.answer_ok hsound.writes time _).choose_spec
    · intro t token' hle' present
      have kept := begun.kept hnames hsound hentry hle
      rw [← hkey] at kept present ⊢
      rw [← kept]
      exact ended.shows_later hnames hsound hhash hcompleted hle' present token'

/-- The server when the order is held, and when it is charged. -/
def heldServer : FieldStore.Memory := (alone 999 "a" (perform .initial (.claim heldOrder)) .empty).2

def chargedServer : FieldStore.Memory :=
  (alone 1999 "b" (perform .initial (.complete chargedOrder)) heldServer).2

/-- Both records are shown in the last millisecond in which the server has them. -/
theorem record_round_trip_to_the_end :
    Shows heldOrder 10998 (alone 10998 "c" (perform .initial (.find order)) heldServer).1 ∧
      Shows { chargedOrder with deadline := some 5000 } 11998
        (alone 11998 "c" (perform .initial (.find order)) chargedServer).1 := by
  have begun : Begun 999 heldOrder :=
    ⟨⟨10, rfl, by decide, by decide, by decide⟩, rfl, by decide, rfl, by decide⟩
  have ended : Ended 1999 chargedOrder :=
    ⟨⟨11, rfl, by decide, by decide, by decide⟩, rfl, by decide, by decide⟩
  have hserver : heldServer = (alone 999 "a" (perform .initial (.claim heldOrder)) .empty).2 := rfl
  obtain ⟨-, claimed, completed⟩ :=
    record_round_trip Memory.sound_empty initial_distinct begun rfl hserver
  refine ⟨claimed 10998 "c" (by decide) (by decide), ?_⟩
  obtain ⟨-, shown⟩ := completed 1999 "b" chargedOrder chargedServer (by decide) ended rfl
    (by decide) rfl
  exact shown 11998 "c" (by decide) (by decide)

end AtMostOnce.Ledger.Fields
