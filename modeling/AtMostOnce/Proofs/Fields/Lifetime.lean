/-
What calls leave on a server of fields is dropped some time.

A claim puts the status into a key that holds nothing, and that entry stays until somebody
deletes it.  The time to live comes with the write that follows, so the entry is owed to a
claim that has not written yet (`Pending`), and other calls may delete the key, claim it
again, replace it or complete it before that write.

An entry without a time to live comes about by a granted claim only, for everything else
that is written has one if the records have an expiry (`Operation.Limited`); and the write
of the claim gives it one, whoever's entry it finds.  So as long as such an entry is there,
a claim of its key is pending (`limited_or_pending`).
-/
import AtMostOnce.Proofs.Fields.Forms

namespace AtMostOnce

theorem Key.text_inj {k k' : Key} (h : k.text = k'.text) : k = k' := congrArg Key.mk h

namespace FieldStore

/-- Will the entry be dropped some time? -/
def Entry.Limited (e : Entry) : Prop := e.dropAt ≠ none

/-- Has what the operation writes a time to live? -/
def Operation.Limited : Operation → Prop
  | .write _ _ ttl | .replace _ _ ttl => ttl ≠ none
  | _ => True

namespace Memory

variable {m : Memory} {now : Millis} {key : String} {e' : Entry}

theorem limited_written {old : Option Entry} {fields : Fields} {ttl : Option Int}
    (httl : ttl ≠ none) (hw : written now old fields ttl = some e') : e'.Limited := by
  obtain ⟨seconds, rfl⟩ := Option.ne_none_iff_exists'.mp httl
  rw [written_some] at hw
  obtain ⟨base, -, rfl⟩ := Option.map_eq_some_iff.mp hw
  exact Option.some_ne_none _

theorem limited_write (h : m.Distinct) (sound : m.writeFails = false) {fields : Fields}
    {ttl : Option Int} (httl : ttl ≠ none)
    (he' : entry? (answer now (.write key fields ttl) m).2 now key = some e') : e'.Limited := by
  rw [entry?_write h sound] at he'
  obtain ⟨hor, -⟩ := Option.filter_eq_some_iff.mp he'
  cases hw : written now (m.entry? now key) fields ttl with
  | some e =>
    rw [hw] at hor
    cases hor
    exact limited_written httl hw
  | none =>
    -- a write without fields to a key that holds nothing
    obtain ⟨seconds, rfl⟩ := Option.ne_none_iff_exists'.mp httl
    rw [hw, Option.none_or] at hor
    rw [written_some] at hw
    have hbase := Option.map_eq_none_iff.mp hw
    unfold merged at hbase
    split at hbase
    · rw [hbase] at hor
      cases hor
    · cases hbase

theorem limited_replace (h : m.Distinct) {fields : Fields} {ttl : Option Int} (httl : ttl ≠ none)
    (he' : entry? (answer now (.replace key fields ttl) m).2 now key = some e') : e'.Limited := by
  rw [entry?_replace h] at he'
  exact limited_written httl (Option.filter_eq_some_iff.mp he').1

/-- A lock is dropped some time; one that is refused leaves what is there. -/
theorem limited_lock (h : m.Distinct) {token : String} {ttl : Int}
    (before : ∀ e, m.entry? now key = some e → e.Limited)
    (he' : entry? (answer now (.lock key token ttl) m).2 now key = some e') : e'.Limited := by
  cases he : m.entry? now key with
  | some e =>
    have held : m.entry? now key ≠ none := by
      rw [he]
      exact Option.some_ne_none e
    rw [(lock_refused h held).2] at he'
    exact before e' he'
  | none =>
    rw [answer_lock, show (m.live now).get? key = none from he] at he'
    rw [entry?_of_set h (some _) rfl key, if_pos rfl, Option.some_or] at he'
    obtain ⟨hput, -⟩ := Option.filter_eq_some_iff.mp he'
    cases hput
    exact Option.some_ne_none _

/-- **Only a claim that is granted leaves an entry that is never dropped where none was.** -/
theorem limited_answer (h : m.Distinct) (sound : m.writeFails = false) {op : Operation}
    (hop : op.Limited)
    (ungranted : ∀ field value, op = .claim key field value →
      (answer now (.claim key field value) m).1 ≠ .ok true)
    (before : ∀ e, m.entry? now key = some e → e.Limited)
    (he' : entry? (answer now op m).2 now key = some e') : e'.Limited := by
  by_cases hkey : op.key = key
  · cases op with
    | claim key' field value =>
      obtain rfl : key' = key := hkey
      obtain ⟨granted, ha⟩ := claim_answered m now key' field value
      cases granted with
      | true => exact absurd ha (ungranted field value rfl)
      | false =>
        rw [(claim_refused h ha).2] at he'
        exact before e' he'
    | write key' fields ttl =>
      obtain rfl : key' = key := hkey
      exact limited_write h sound hop he'
    | read key' =>
      rw [entry?_read h] at he'
      exact before e' he'
    | lock key' token ttl =>
      obtain rfl : key' = key := hkey
      exact limited_lock h before he'
    | replace key' fields ttl =>
      obtain rfl : key' = key := hkey
      exact limited_replace h hop he'
    | delete key' =>
      obtain rfl : key' = key := hkey
      rw [show entry? (answer now (.delete key') m).2 now key' = none from
        (entry?_of_erase h none rfl key').trans (if_pos rfl)] at he'
      cases he'
  · rw [entry?_answer_of_ne h hkey] at he'
    exact before e' he'

end Memory

end FieldStore

namespace Ledger

/-- The record that a request brings along. -/
def Request.record? : Request → Option Record
  | .claim r | .complete r => some r
  | .find _ | .remove _ => none

/-- Has the record that the request writes an expiry? -/
def Request.Limited : Request → Prop
  | .claim r | .complete r => r.expiry ≠ none
  | _ => True

namespace Fields

open Dialogue FieldStore

/-! ### What requests write -/

/-- Is what is written given such a time to live, and a lock one of these cut short? -/
def Request.Lives (lives : Option Int → Prop) : Request → Prop
  | .store (.write _ _ ttl) | .store (.replace _ _ ttl) => lives ttl
  | .store (.lock _ _ seconds) =>
    ∃ ttl, lives ttl ∧ seconds = min (ttl.getD maxLockSeconds) maxLockSeconds
  | _ => True

/-- Does the clock tell such a time? -/
def Request.Tells (told : Millis → Prop) : (q : Request) → q.Answer → Prop
  | .now, t => told t
  | _, _ => True

/-- Whatever is written is given such a time to live, if the clock tells such times. -/
@[reducible] def living (lives : Option Int → Prop) (told : Millis → Prop) :
    Protocol Request Request.Answer Unit where
  allows _ q := q.Lives lives
  accepts := Request.Tells told
  after _ _ _ := ()

/-- The time to live of the record is such a one. -/
def Lives (lives : Option Int → Prop) (told : Millis → Prop) (r : Record) : Prop :=
  (ttlOf r).Follows (living lives told) (fun _ ttl => lives ttl) ()

section

variable {β : Type} {names : FieldNames} {r : Record} {lives : Option Int → Prop}
  {told : Millis → Prop}

theorem Lives.ttlOf (hr : Lives lives told r) {ends : Unit → β → Prop}
    {next : Option Int → Action β}
    (h : ∀ ttl, lives ttl → (next ttl).Follows (living lives told) ends ()) :
    (ttlOf r >>= next).Follows (living lives told) ends () :=
  (follows_bind _ _ _).mpr (hr.mono fun _ ttl httl => h ttl httl)

theorem living_recordOf {key : Key} {fields : Fields} {ttl : Int} :
    (recordOf names key fields ttl).Follows (living lives told) (fun _ _ => True) () := by
  unfold recordOf recordM
  cases Status.parse ((fields.get? names.status).getD "") with
  | error err => trivial
  | ok status =>
    by_cases httl : 0 ≤ ttl
    · simp only [if_pos httl]
      exact ⟨trivial, fun t _ => trivial⟩
    · simp only [if_neg httl]
      trivial

theorem living_blocks {key : Key} {fields : Fields} {ttl : Int} :
    (blocks names key fields ttl).Follows (living lives told) (fun _ _ => True) () := by
  unfold blocks blocksM
  split
  · trivial
  · refine (follows_bind _ _ _).mpr (living_recordOf.mono fun _ found _ => ?_)
    cases found with
    | error err => trivial
    | ok r => exact ⟨trivial, fun t _ => trivial⟩

theorem living_overwrite (hr : Lives lives told r) :
    (overwrite names r).Follows (living lives told) (fun _ _ => True) () := by
  refine hr.ttlOf fun ttl httl =>
    ⟨trivial, fun token _ => ⟨⟨ttl, httl, rfl⟩, fun locked _ => ?_⟩⟩
  cases locked with
  | error err => trivial
  | ok granted =>
    cases granted with
    | false => trivial
    | true =>
      refine ⟨httl, fun replaced _ => ?_⟩
      cases replaced <;> trivial

theorem living_claim (hr : Lives lives told r) :
    (claim names r).Follows (living lives told) (fun _ _ => True) () := by
  refine ⟨trivial, fun claimed _ => ?_⟩
  cases claimed with
  | error err => trivial
  | ok granted =>
    cases granted with
    | true =>
      refine hr.ttlOf fun ttl httl => ⟨httl, fun written _ => ?_⟩
      cases written <;> trivial
    | false =>
      refine ⟨trivial, fun read _ => ?_⟩
      cases read with
      | error err => trivial
      | ok shown =>
        refine (follows_bind (blocks names r.key shown.1 shown.2) _ _).mpr
          (living_blocks.mono fun _ blocked _ => ?_)
        cases blocked with
        | true => trivial
        | false => exact living_overwrite hr

theorem living_find (key : Key) :
    (find names key).Follows (living lives told) (fun _ _ => True) () := by
  refine ⟨trivial, fun read _ => ?_⟩
  cases read with
  | error err => trivial
  | ok shown =>
    show Follows (living lives told) _ (if shown.1.isEmpty then _ else _) ()
    split
    · trivial
    · exact living_recordOf

/-- A request gives to what it writes the time to live of its record. -/
theorem living_perform {q : Ledger.Request} (hq : ∀ r, q.record? = some r → Lives lives told r) :
    (perform names q).Follows (living lives told) (fun _ _ => True) () := by
  cases q with
  | claim r => exact living_claim (hq r rfl)
  | find key => exact living_find key
  | complete r => exact (hq r rfl).ttlOf fun ttl httl => ⟨httl, fun _ _ => trivial⟩
  | remove key => exact ⟨trivial, fun _ _ => trivial⟩

end

/-- Has what the server is asked to write a time to live? -/
def Request.Limited : Request → Prop
  | .store op => op.Limited
  | _ => True

/-- Whatever is written has a time to live. -/
@[reducible] def limiting : Protocol Request Request.Answer Unit where
  allows _ q := q.Limited
  accepts _ _ := True
  after _ _ _ := ()

/-- A record with an expiry has a time to live. -/
theorem lives_of_expiry {r : Record} (hr : r.expiry ≠ none) :
    Lives (fun ttl => ttl ≠ none) (fun _ => True) r := by
  obtain ⟨expiry, hexpiry⟩ := Option.ne_none_iff_exists'.mp hr
  unfold Lives ttlOf ttlM
  rw [hexpiry]
  exact ⟨trivial, fun t _ => Option.some_ne_none _⟩

/-- **A request writes without a time to live only for a record without an expiry.** -/
theorem limiting_call {names : FieldNames} {q : Ledger.Request} (hq : q.Limited) :
    (call names q).Follows limiting (fun _ _ => True) () := by
  refine (follows_bind (perform names q) _ _).mpr ?_
  show (perform names q).Follows limiting (fun _ _ => True) ()
  refine (living_perform fun r hr => lives_of_expiry ?_).widen ?_ ?_
  · cases q <;> cases hr <;> exact hq
  · rintro (_ | _ | op) hop
    · trivial
    · trivial
    · cases op <;> trivial
  · rintro (_ | _ | op) a - <;> trivial

/-! ### Claims that have not written yet -/

namespace Calls

variable {ι : Type} [DecidableEq ι] {names : FieldNames} {req : ι → Ledger.Request} {k : Key}

/-- A claim of the key was granted the status before the `n`-th event and has not written its other
fields yet. -/
def Pending (x : Calls names req) (k : Key) (n : Nat) : Prop :=
  ∃ l < n, ∃ i r, r.key = k ∧ x.Claims l i r ∧ ∀ t < n, l < t → ¬ x.Fills t i r

variable {x : Calls names req} {n : Nat} {e : Entry}

theorem said_limited {i : ι} {op : Operation} {a : op.Answer} (hreq : (req i).Limited)
    (hs : x.Says n i (.store op) a) : op.Limited :=
  Execution.Says.allowed hs (limiting_call hreq) fun _ _ _ _ => trivial

/-- A claim stays pending until it writes. -/
theorem Pending.succ {l : Nat} {i : ι} {r : Record} (hl : l ≤ n) (hkey : r.key = k)
    (claimed : x.Claims l i r) (unwritten : ∀ t < n, l < t → ¬ x.Fills t i r)
    (unwritten_now : l < n → ¬ x.Fills n i r) : x.Pending k (n + 1) := by
  refine ⟨l, Nat.lt_succ_of_le hl, i, r, hkey, claimed, fun t ht hlt => ?_⟩
  rcases Nat.lt_succ_iff_lt_or_eq.mp ht with ht | rfl
  · exact unwritten t ht hlt
  · exact unwritten_now hlt

theorem Fills.limited {i : ι} {r : Record} (hd : (x.state n).memory.Distinct)
    (sound : (x.state n).memory.writeFails = false) (hr : r.expiry ≠ none)
    (hf : x.Fills n i r) (he : x.held r.key (n + 1) = some e) : e.Limited := by
  obtain ⟨hreq, ttl, hs⟩ := hf
  have hop : Operation.Limited (.write r.key.text (claimFields names r) ttl) :=
    said_limited (i := i) (by rw [hreq]; exact hr) hs
  rw [held_said hs] at he
  exact FieldStore.Memory.limited_write hd sound hop he

/-- An entry of a key comes to be one that is never dropped by a claim that is granted. -/
theorem limited_succ (limited : ∀ i, (req i).Limited) (hn : n < x.length)
    (hd : (x.state n).memory.Distinct) (sound : (x.state n).memory.writeFails = false)
    (unclaimed : ∀ i r, r.key = k → ¬ x.Claims n i r)
    (before : ∀ e, x.held k n = some e → e.Limited) (he : x.held k (n + 1) = some e) :
    e.Limited := by
  by_cases hsaid : ∃ i op a, x.Says n i (.store op) a
  · obtain ⟨i, op, a, hs⟩ := hsaid
    rw [held_said hs] at he
    refine FieldStore.Memory.limited_answer hd sound (said_limited (limited i) hs) ?_ before he
    intro field value hop granted
    have hsteps := steps hs
    generalize hq : req i = q at hsteps
    cases hsteps with
    | claims r =>
      injection hop with hkey hfield hvalue
      rw [← hkey, ← hfield, ← hvalue] at granted
      obtain rfl : a = .ok true := (congrArg Prod.fst (carried_out hs).1).symm.trans granted
      exact unclaimed i r (Key.text_inj hkey) ⟨hq, hs⟩
    | _ => cases hop
  · exact before e (held_silent hd hn hsaid he)

/-- **As long as there is an entry that is never dropped, a claim of its key is pending.** -/
theorem pending_of_unlimited (empty : (x.state 0).memory = .empty) (limited : ∀ i, (req i).Limited)
    (hn : n ≤ x.length) (he : x.held k n = some e) (forever : ¬ e.Limited) :
    x.Pending k n := by
  have distinct : (x.state 0).memory.Distinct := by
    rw [empty]
    exact List.nodup_nil
  have sound : (x.state 0).memory.writeFails = false := by
    rw [empty]
    rfl
  induction n generalizing e with
  | zero =>
    rw [held, empty] at he
    cases he
  | succ n ih =>
    have hd := memory_distinct distinct (Nat.le_of_lt hn)
    have hw := memory_sound sound (Nat.le_of_lt hn)
    by_cases hclaimed : ∃ i r, r.key = k ∧ x.Claims n i r
    · obtain ⟨i, r, hkey, claimed⟩ := hclaimed
      exact .succ (Nat.le_refl n) hkey claimed (by omega) (by omega)
    · have before : ∃ e, x.held k n = some e ∧ ¬ e.Limited := by
        by_contra hnone
        push Not at hnone hclaimed
        exact forever (limited_succ limited hn hd hw hclaimed hnone he)
      obtain ⟨e0, he0, hforever⟩ := before
      obtain ⟨l, hl, i, r, rfl, claimed, unwritten⟩ := ih (Nat.le_of_lt hn) he0 hforever
      refine .succ (Nat.le_of_lt hl) rfl claimed unwritten fun _ filled => ?_
      have hr : (req i).Limited := limited i
      rw [claimed.1] at hr
      exact forever (filled.limited hd hw hr he)

/-- **If every record has an expiry, then a key that no pending claim has just been granted holds
nothing, or its entry will be dropped at a time that is still to come.** -/
theorem limited_or_pending (empty : (x.state 0).memory = .empty) (limited : ∀ i, (req i).Limited)
    (hn : n ≤ x.length) (settled : ¬ x.Pending k n) :
    x.held k n = none ∨
      ∃ e t, x.held k n = some e ∧ e.dropAt = some t ∧ (x.state n).now < t := by
  cases he : x.held k n with
  | none => exact .inl rfl
  | some e =>
    right
    have hlim : e.Limited := by
      by_contra forever
      exact settled (pending_of_unlimited empty limited hn he forever)
    obtain ⟨t, ht⟩ := Option.ne_none_iff_exists'.mp hlim
    have distinct : (x.state 0).memory.Distinct := by
      rw [empty]
      exact List.nodup_nil
    have hlive := FieldStore.Memory.entry?_isLive (memory_distinct distinct hn) he
    rw [FieldStore.Memory.isLive, ht] at hlive
    exact ⟨e, t, rfl, ht, of_decide_eq_true hlive⟩

/-! A claim is deleted before it has written, and the next claim of the key is pending when that
write comes.  A third claim is about the key that the lock of the first key is named by. -/

inductive Claimant where
  | first
  | remover
  | second
  | other
  deriving DecidableEq

def Claimant.request : Claimant → Ledger.Request
  | first => .claim ⟨order, .inProgress, some 3600, some 100000, none, none⟩
  | remover => .remove order
  | second => .claim ⟨order, .inProgress, some 60, some 100000, none, none⟩
  | other => .claim ⟨⟨lockName order⟩, .inProgress, some 3600, some 100000, none, none⟩

/-- The third claim has not written yet when the others have. -/
def overtaken : Calls .initial Claimant.request :=
  (player Claimant).play vacant _
    (turns .first 1 ++ turns .remover 1 ++ turns .second 1 ++ turns .first 2 ++ turns .other 1 ++
      [.inr 1000] ++ turns .second 2)

theorem overtaken_limited (i : Claimant) : i.request.Limited := by
  cases i with
  | remover => trivial
  | _ => exact Option.some_ne_none _

/-- The first claim writes before the second one does, and nobody claims the order after that. -/
theorem overtaken_settled : ¬ overtaken.Pending order 9 := by
  rintro ⟨l, hl, i, r, hkey, ⟨hreq, hs⟩, unwritten⟩
  cases i with
  | first =>
    cases hreq
    have hlate : ∀ l < 9, (overtaken.event l).who? = some .first → l ≤ 4 := by decide
    have hfills : overtaken.Fills 4 .first _ := ⟨rfl, some 3600, by decide, rfl⟩
    rcases Nat.lt_or_eq_of_le (hlate l hl hs.who) with hlt | rfl
    · exact unwritten 4 (by omega) hlt hfills
    · obtain ⟨-, ttl, hw⟩ := hfills
      cases (hs.unique hw).2.1
  | second =>
    cases hreq
    have hfills : overtaken.Fills 8 .second _ := ⟨rfl, some 59, by decide, rfl⟩
    rcases Nat.lt_or_eq_of_le (Nat.le_of_lt_succ hl) with hlt | rfl
    · exact unwritten 8 (by omega) hlt hfills
    · obtain ⟨-, ttl, hw⟩ := hfills
      cases (hs.unique hw).2.1
  | remover => cases hreq
  | other =>
    cases hreq
    exact absurd hkey (by decide)

/-- Between the two steps of the second claim the entry of the order may stay for ever, if nobody
else writes; in the end it is dropped some time. -/
theorem overtaken_drops :
    (∃ e, overtaken.held order 3 = some e ∧ ¬ e.Limited) ∧
      ∃ e t, overtaken.held order 9 = some e ∧ e.dropAt = some t ∧
        (overtaken.state 9).now < t := by
  refine ⟨⟨_, rfl, fun limited => limited rfl⟩, ?_⟩
  have held : overtaken.held order 9 ≠ none := by decide +kernel
  exact (limited_or_pending rfl overtaken_limited (by decide) overtaken_settled).resolve_left held

end Calls

end Fields

end Ledger

end AtMostOnce
