/-
The figures of a run over a server of fields.

A run hands two kinds of records to its ledger, and dates both by what the clock said before
(`dates_run`), so that no figure of the run overflows if the clock stops short of the end of
the range by the lifetime of the records.  That much room is needed: the expiry of a record is
a sum that saturates, while the server takes the end of its time to live from a product and a
sum that do not, so that the first claim without room is the end of its run.
-/
import AtMostOnce.Proofs.Engine.Interleaved
import AtMostOnce.Proofs.Fields.Figures

namespace AtMostOnce

theorem Settings.lasts_of_validate {s : Settings} (h : s.validate = .ok ()) :
    1 ≤ s.expiresAfter := by
  refine Nat.one_le_iff_ne_zero.mpr fun hzero => ?_
  unfold validate at h
  rw [if_pos hzero] at h
  cases hkey : s.key <;> cases hcheck : s.check <;> rw [hkey, hcheck] at h <;> cases h

namespace Engine

open Dialogue Ledger.Fields

variable {α β γ : Type}

/-! ### Runs over a server -/

/-- What a run finds. -/
structure Conditions (α : Type) where
  luck : Luck
  names : Ledger.FieldNames
  /-- What the cache tells after so many questions. -/
  cached : Nat → Option Record
  /-- How the function ends, if it is started. -/
  outcome : Except Failure α

namespace Conditions

variable (c : Conditions α)

/-- How the questions of a run are answered. -/
def answer : (q : Request) → StateT Premises (Except Overflow) (Answer α q)
  | .now, s => return (c.luck.clock s.asked, s.next [])
  | .cached _, s => return (c.cached s.asked, s.next [])
  | .ledger q, s => c.luck.carryOut c.names q s
  | .finish, s => return (c.outcome, s.next [])
  | .keep _, s | .forget _, s | .start, s | .note _, s => return ((), s.next [])

/-- What a run comes to, and what was done then; or the figure that was out of range. -/
def run (e : Engine) (enc : Encoding α) (payload : Payload) (left : Option Nat)
    (server : FieldStore.Memory) : Except Overflow (Except Error α × Premises) :=
  (e.run enc payload left).answerBy (m := StateT Premises (Except Overflow)) c.answer
    ⟨server, 0, []⟩

end Conditions

/-! ### What a run hands to its ledger -/

/-- The record that a question brings along. -/
def Request.record? : Request → Option Record
  | .ledger q => q.record?
  | _ => none

/-- The times that were told so far date whatever is handed to the ledger. -/
@[reducible] def dating (α : Type) (lasts : Nat) : Protocol Request (Answer α) (List Millis) where
  allows times q := ∀ r, q.record? = some r → ∃ since ∈ times, Dated lasts since r
  accepts _ _ := True
  after
    | times, .now, t => t :: times
    | times, _, _ => times

/-- The dialogue dates what it hands to the ledger, whatever was told before. -/
def Dates (lasts : Nat) (d : Action α β) : Prop :=
  ∀ times, d.Follows (dating α lasts) (fun _ _ => True) times

section

variable {lasts : Nat} {e : Engine} {enc : Encoding α} {context : EncodingContext} {n : Nat}

theorem dates_done (b : β) : Dates lasts (.done b : Action α β) := fun _ => trivial

/-- A question without a record needs no date. -/
theorem undated {q : Request} {times : List Millis} (hq : q.record? = none) :
    (dating α lasts).allows times q := by
  intro r hr
  rw [hq] at hr
  cases hr

theorem dates_ask {q : Request} {next : Answer α q → Action α β} (hq : q.record? = none)
    (h : ∀ a, Dates lasts (next a)) : Dates lasts (.ask q next) :=
  fun _ => ⟨undated hq, fun a _ => h a _⟩

theorem Dates.bind {d : Action α β} {f : β → Action α γ} (h : Dates lasts d)
    (hf : ∀ b, Dates lasts (f b)) : Dates lasts (d >>= f) :=
  fun times => (follows_bind d f times).mpr ((h times).mono fun times' b _ => hf b times')

theorem dates_note (event : Event) : Dates lasts (note event : Action α Unit) :=
  dates_ask rfl fun _ => dates_done _

theorem dates_now : Dates lasts (now : Action α Millis) := dates_ask rfl fun _ => dates_done _

theorem dates_cached (k : Key) : Dates lasts (e.cached k : Action α (Option Record)) := by
  unfold cached
  split
  · exact dates_ask rfl fun _ => dates_done _
  · exact dates_done _

theorem dates_keep (r : Record) : Dates lasts (e.keep r : Action α Unit) := by
  unfold keep
  split
  · exact dates_ask rfl fun _ => dates_done _
  · exact dates_done _

theorem dates_forget (k : Key) : Dates lasts (e.forget k : Action α Unit) := by
  unfold forget
  split
  · exact dates_ask rfl fun _ => dates_done _
  · exact dates_done _

theorem dates_deriveKey (v : Json.Value) :
    Dates lasts (e.deriveKey v : Action α (Except Error Key)) := by
  unfold deriveKey
  split
  · exact (dates_note _).bind fun _ => dates_done _
  · exact dates_done _

theorem dates_checkPayload (r : Record) (digest : String) :
    Dates lasts (e.checkPayload r digest : Action α (Except Error Unit)) := by
  unfold checkPayload
  split
  · exact (dates_note _).bind fun _ => dates_done _
  · exact dates_done _

theorem dates_replayCached (digest : String) (r : Record) :
    Dates lasts (e.replayCached enc context n digest r) := by
  refine (dates_checkPayload r digest).bind fun checked => ?_
  cases checked with
  | error err => exact dates_done _
  | ok _ => exact (dates_note _).bind fun _ => (dates_note _).bind fun _ => dates_done _

theorem dates_settleWith (k : Key) (r : Record) :
    Dates lasts (e.settleWith enc context n k r) := by
  refine dates_now.bind fun t => ?_
  cases r.statusAt (secondsOf t) with
  | expired => exact dates_done _
  | inProgress =>
    refine dates_now.bind fun t' => ?_
    split
    · exact dates_done _
    · exact dates_done _
  | completed =>
    refine (dates_keep r).bind fun _ => (dates_note _).bind fun _ => ?_
    cases e.replay enc context r with
    | ok a => exact (dates_note _).bind fun _ => dates_done _
    | error err => exact dates_done _

theorem dates_resolveConflict (k : Key) (digest : String) :
    Dates lasts (e.resolveConflict enc context n k digest) := by
  refine dates_ask (q := .ledger (.find k)) rfl fun found => ?_
  cases found with
  | error err => cases err <;> exact dates_done _
  | ok r =>
    refine (dates_checkPayload r digest).bind fun checked => ?_
    cases checked with
    | error err => exact dates_done _
    | ok _ => exact dates_settleWith k r

theorem dates_failWith (k : Key) (f : Failure) :
    Dates lasts (e.failWith n k f : Action α (Except Error α)) := by
  have hremove : Dates lasts (e.remove k : Action α (Except Error Unit)) := by
    refine dates_ask (q := .ledger (.remove k)) rfl fun removed => ?_
    cases removed with
    | error err => exact dates_done _
    | ok _ => exact (dates_forget k).bind fun _ => dates_done _
  unfold failWith
  split
  · refine hremove.bind fun removed => ?_
    cases removed with
    | error err => exact dates_done _
    | ok _ => exact (dates_note _).bind fun _ => dates_done _
  · exact (dates_note _).bind fun _ => dates_done _

/-! Claims and completions hand over a record that the clock has just dated. -/

theorem dates_finishWith (claimed : Record) (a : α) :
    Dates e.settings.expiresAfter (e.finishWith enc context n claimed a) := by
  unfold finishWith
  cases enc.store context a with
  | error err => exact dates_done _
  | ok data =>
    refine fun times => ⟨undated rfl, fun t _ => ⟨?_, fun completed _ => ?_⟩⟩
    · rintro r ⟨⟩
      exact ⟨t, List.mem_cons_self, rfl, nofun⟩
    · -- what follows is said of the record as it was handed over
      have hrest : Dates e.settings.expiresAfter
          (e.keep ⟨claimed.key, .completed,
              some (Word.addClamped (secondsOf t) (lifetime e.settings.expiresAfter)), none,
              some data, claimed.payloadHash⟩ >>= fun _ =>
            reached .completed n >>= fun _ => (.done (.ok a) : Action α (Except Error α))) :=
        (dates_keep _).bind fun _ => (dates_note _).bind fun _ => dates_done _
      cases completed with
      | error err => trivial
      | ok _ => exact hrest _

theorem dates_callFunction (claimed : Record) :
    Dates e.settings.expiresAfter (e.callFunction enc context n claimed) := by
  refine (dates_note _).bind fun _ => ?_
  refine dates_ask (q := .start) rfl fun _ => dates_ask (q := .finish) rfl fun outcome => ?_
  cases outcome with
  | ok a => exact dates_finishWith claimed a
  | error f => exact dates_failWith claimed.key f

theorem dates_claim (k : Key) (digest : String) (left : Option Nat) (started : Bool) :
    Dates e.settings.expiresAfter (e.claim enc context n k digest left started) := by
  refine fun times => ⟨undated rfl, fun t _ => ⟨undated rfl, fun t' _ =>
    ⟨undated rfl, fun _ _ => ⟨?_, ?_⟩⟩⟩⟩
  · rintro r ⟨⟩
    refine ⟨t', List.mem_cons_self, rfl, fun d hd => ?_⟩
    obtain ⟨_, -, rfl⟩ := Option.map_eq_some_iff.mp hd
    exact Word.clamp_inRange _
  · intro claimed _
    rcases claimed with err | _ | _
    · trivial
    · cases started with
      | true => trivial
      | false =>
        exact ((dates_callFunction _).bind fun _ => dates_done _) _
    · refine ((dates_resolveConflict k digest).bind fun result => ?_) _
      cases result with
      | ok a => exact dates_done _
      | error err => exact (dates_note _).bind fun _ => dates_done _

theorem dates_attempt (v : Json.Value) (left : Option Nat) (started : Bool) :
    Dates e.settings.expiresAfter (e.attempt enc v left n started) := by
  refine (dates_deriveKey v).bind fun derived => ?_
  cases derived with
  | error err => exact dates_done _
  | ok k =>
    refine (dates_note _).bind fun _ => (dates_cached k).bind fun found => ?_
    cases found with
    | some r => exact (dates_replayCached _ r).bind fun _ => dates_done _
    | none => exact dates_claim k _ left started

theorem dates_attempts (v : Json.Value) (left : Option Nat) (retries : Nat) :
    ∀ (n : Nat) (started : Bool),
      Dates e.settings.expiresAfter (e.attempts enc v left retries n started) := by
  induction retries with
  | zero =>
    intro n started
    exact (dates_attempt v left started).bind fun _ => dates_done _
  | succ retries ih =>
    intro n started
    refine (dates_attempt v left started).bind fun (result, started) => ?_
    cases result with
    | ok a => exact dates_done _
    | error err =>
      dsimp only
      split
      · exact (dates_note _).bind fun _ => ih (n + 1) started
      · exact dates_done _

/-- **Whatever a run is told, the records that it hands to its ledger are dated by the clock.** -/
theorem dates_run (payload : Payload) (left : Option Nat) :
    Dates e.settings.expiresAfter (e.run enc payload left) := by
  rw [run.eq_def]
  split
  · refine dates_ask (q := .start) rfl fun _ => dates_ask (q := .finish) rfl fun outcome => ?_
    cases outcome with
    | ok a => exact dates_done _
    | error f => exact dates_done _
  · cases payload with
    | error reason => exact dates_done _
    | ok v => exact dates_attempts v left _ 0 false

end

/-! ### Runs that stay in range -/

section

variable {c : Conditions α} {lasts : Nat} {horizon : Int} {s : Premises}

/-- The premises of a run that was told these times. -/
structure Told (c : Conditions α) (lasts : Nat) (s : Premises) (times : List Millis) : Prop where
  fine : s.Fine c.luck lasts
  times : ∀ t ∈ times, 0 ≤ t ∧ t ≤ c.luck.clock s.asked

theorem Told.next {times : List Millis} (h : Told c lasts s times)
    (steady : c.luck.Steady horizon) : Told c lasts (s.next []) times where
  fine := h.fine.next steady (List.forall_mem_nil _)
  times t ht := ⟨(h.times t ht).1,
    Int.le_trans (h.times t ht).2 (steady.forward _ _ (Nat.le_succ _))⟩

/-- If there is room for what is dated, a question is answered without an overflow. -/
theorem Told.answer {times : List Millis} {q : Request} (h : Told c lasts s times)
    (steady : c.luck.Steady horizon) (hlasts : 1 ≤ lasts)
    (room : horizon + 1000 * lasts ≤ Word.greatest) (hq : (dating α lasts).allows times q) :
    ∃ a s', c.answer q s = .ok (a, s') ∧ Told c lasts s' ((dating α lasts).after times q a) := by
  cases q with
  | now =>
    have hnext := h.next steady
    refine ⟨_, _, rfl, hnext.fine, fun t ht => ?_⟩
    rcases List.mem_cons.mp ht with rfl | ht
    · exact ⟨steady.since _, steady.forward _ _ (Nat.le_succ _)⟩
    · exact hnext.times t ht
  | ledger q =>
    have dated : ∀ r, q.record? = some r →
        ∃ since, 0 ≤ since ∧ since ≤ c.luck.clock s.asked ∧ Dated lasts since r := by
      intro r hr
      obtain ⟨since, hmem, dated⟩ := hq r hr
      exact ⟨since, (h.times since hmem).1, (h.times since hmem).2, dated⟩
    obtain ⟨a, s', hcarried, carries⟩ := carryOut_returns c.names h.fine steady hlasts room dated
    exact ⟨a, s', hcarried, carries.fine, fun t ht => ⟨(h.times t ht).1,
      Int.le_trans (h.times t ht).2 (steady.forward _ _ carries.started)⟩⟩
  | _ => exact ⟨_, _, rfl, h.next steady⟩

/-- A run comes to its end if there is room for the lifetime of its records. -/
theorem run_returns {e : Engine} {enc : Encoding α} {payload : Payload} {left : Option Nat}
    {server : FieldStore.Memory} (steady : c.luck.Steady horizon)
    (hlasts : 1 ≤ e.settings.expiresAfter)
    (room : horizon + 1000 * e.settings.expiresAfter ≤ Word.greatest) (distinct : server.Distinct)
    (near : server.Near (c.luck.clock 0)) :
    ∃ result s, c.run e enc payload left server = .ok (result, s) ∧ s.Sound c.luck := by
  have follows : (e.run enc payload left).Follows _ _ [] := dates_run payload left []
  have h0 : Told c e.settings.expiresAfter ⟨server, 0, []⟩ [] :=
    ⟨⟨distinct, near, List.forall_mem_nil _⟩, List.forall_mem_nil _⟩
  obtain ⟨result, s, times, hrun, told, -⟩ := follows.returns (Told c e.settings.expiresAfter) h0
    fun q s times h hq => by
      obtain ⟨a, s', hanswer, told⟩ := h.answer steady hlasts room hq
      exact ⟨a, s', hanswer, trivial, told⟩
  exact ⟨result, s, hrun, told.fine.sound⟩

end

/-! ### Runs without room -/

/-- A run that finds an empty cache, and one time on the clock, claims its key first. -/
@[reducible] def claiming (α : Type) (lasts : Nat) (time : Millis) :
    Protocol Request (Answer α) Bool where
  allows
    | false, .ledger q => ∃ r, q = .claim r ∧
        r.expiry = some (Word.addClamped (secondsOf time) (lifetime lasts))
    | _, _ => True
  accepts
    | .now, t => t = time
    | .cached _, found => found = none
    | _, _ => True
  after
    | _, .ledger _, _ => true
    | claimed, _, _ => claimed

section

variable {lasts : Nat} {time : Millis} {e : Engine} {enc : Encoding α} {n : Nat} {k : Key}
  {v : Json.Value} {left : Option Nat} {started : Bool}

theorem claiming_afterwards (d : Action α β) :
    d.Follows (claiming α lasts time) (fun claimed _ => claimed = true) true := by
  induction d with
  | done b => rfl
  | ask q next ih =>
    refine ⟨trivial, fun a _ => ?_⟩
    cases q <;> exact ih a

theorem claiming_claim {context : EncodingContext} {digest : String} :
    (e.claim enc context n k digest left started).Follows
      (claiming α e.settings.expiresAfter time) (fun claimed _ => claimed = true) false := by
  refine ⟨trivial, fun t _ => ⟨trivial, fun t' ht' => ⟨trivial, fun _ _ => ⟨?_, fun _ _ => ?_⟩⟩⟩⟩
  · obtain rfl : t' = time := ht'
    exact ⟨_, rfl, rfl⟩
  · exact claiming_afterwards _

theorem claiming_deriveKey {f : Except Error Key → Action α β} {ends : Bool → β → Prop}
    (h : (f (e.rule.derive v)).Follows (claiming α lasts time) ends false) :
    (e.deriveKey v >>= f).Follows (claiming α lasts time) ends false := by
  rw [deriveKey]
  split
  · exact ⟨trivial, fun _ _ => h⟩
  · exact h

theorem claiming_attempt (hk : e.rule.derive v = .ok k) :
    (e.attempt enc v left n started).Follows (claiming α e.settings.expiresAfter time)
      (fun claimed _ => claimed = true) false := by
  refine claiming_deriveKey ?_
  rw [hk]
  refine ⟨trivial, fun _ _ => ?_⟩
  show Follows _ _ (e.cached k >>= _) false
  rw [cached]
  split
  · refine ⟨trivial, fun found hfound => ?_⟩
    obtain rfl : found = none := hfound
    exact claiming_claim
  · exact claiming_claim

/-- A run for a payload with a key claims it. -/
theorem claiming_run (enabled : e.settings.disabled = false) (hk : e.rule.derive v = .ok k) :
    (e.run enc (.ok v) left).Follows (claiming α e.settings.expiresAfter time)
      (fun claimed _ => claimed = true) false := by
  rw [run.eq_def, if_neg (by simp [enabled])]
  show (e.attempts enc v left e.settings.maxRetries 0 false).Follows _ _ false
  cases e.settings.maxRetries with
  | zero =>
    rw [attempts]
    refine (follows_bind _ _ _).mpr ((claiming_attempt hk).mono ?_)
    rintro _ result rfl
    exact claiming_afterwards _
  | succ retries =>
    rw [attempts]
    refine (follows_bind _ _ _).mpr ((claiming_attempt hk).mono ?_)
    rintro _ result rfl
    exact claiming_afterwards _

/-- Nothing is kept anywhere, and the clock stands still. -/
def Conditions.still (α : Type) (time : Millis) : Conditions α where
  luck := ⟨fun _ => time, fun _ => "token"⟩
  names := .initial
  cached _ := none
  outcome := .error default

theorem steady_still (h : 0 ≤ time) : (Conditions.still α time).luck.Steady time :=
  ⟨fun _ _ _ => Int.le_refl _, fun _ => h, fun _ => Int.le_refl _⟩

/-- Without room for its lifetime the time to live of a record is in range, but not its end. -/
theorem not_fits_of_narrow {time : Int} (hsince : 0 ≤ time) (hrange : time ≤ Word.greatest)
    (narrow : Word.greatest < time + 1000 * lasts) :
    Word.InRange (Word.addClamped (secondsOf time) (lifetime lasts) - secondsOf time) ∧
      ¬ FieldStore.Memory.Fits time
        (max 1 (Word.addClamped (secondsOf time) (lifetime lasts) - secondsOf time)) := by
  unfold FieldStore.Memory.Fits Word.InRange Word.addClamped lifetime Word.clamp Word.least
    Word.greatest secondsOf at *
  omega

/-- Without room no claim is answered, so the server stays empty as long as questions are. -/
theorem empty_answer {s s' : Premises} {q : Request} {a : Answer α q} (hsince : 0 ≤ time)
    (hrange : time ≤ Word.greatest) (narrow : Word.greatest < time + 1000 * (lasts : Int))
    (hempty : s.server = .empty) (hq : (claiming α lasts time).allows false q)
    (hanswer : (Conditions.still α time).answer q s = .ok (a, s')) :
    (claiming α lasts time).accepts q a ∧ (claiming α lasts time).after false q a = false ∧
      s'.server = .empty := by
  cases q with
  | ledger q =>
    obtain ⟨r, rfl, hr⟩ := hq
    obtain ⟨hleft, unfit⟩ := not_fits_of_narrow hsince hrange narrow
    obtain ⟨overflow, hclaim⟩ : ∃ overflow, (Conditions.still α time).luck.carryOut .initial
        (.claim r) s = .error overflow := carryOut_overflows hempty hr hleft unfit
    cases hclaim.symm.trans hanswer
  | now | cached =>
    cases hanswer
    exact ⟨rfl, rfl, hempty⟩
  | _ =>
    cases hanswer
    exact ⟨trivial, rfl, hempty⟩

/-- A run without room ends at a figure out of range. -/
theorem run_overflows (enabled : e.settings.disabled = false) (hk : e.rule.derive v = .ok k)
    (hsince : 0 ≤ time) (hrange : time ≤ Word.greatest)
    (narrow : Word.greatest < time + 1000 * (e.settings.expiresAfter : Int)) :
    ∃ overflow, (Conditions.still α time).run e enc (.ok v) left .empty = .error overflow := by
  have follows : (e.run enc (.ok v) left).Follows (claiming α e.settings.expiresAfter time) _
    false := claiming_run enabled hk
  cases hrun : (Conditions.still α time).run e enc (.ok v) left .empty with
  | error overflow => exact ⟨overflow, rfl⟩
  | ok ended =>
    -- a run that has come to its end has claimed its key, but no claim was answered
    obtain ⟨_, ⟨unclaimed, -⟩, rfl⟩ := follows.returned
      (fun (s : Premises) claimed => claimed = false ∧ s.server = .empty) ⟨rfl, rfl⟩
      (by
        rintro q s _ a s' ⟨rfl, hempty⟩ hq hanswer
        exact empty_answer hsince hrange narrow hempty hq hanswer) hrun
    cases unclaimed

end

/-- **All runs up to a point in time come to their end with no figure out of range, with times to
live of a second at least, and with a record right after it was claimed, exactly if the clock stops
short of the end of the range by the lifetime of the records.** -/
theorem run_inRange_iff {e : Engine} {enc : Encoding α} {v : Json.Value} {k : Key} {horizon : Int}
    (valid : e.settings.validate = .ok ()) (enabled : e.settings.disabled = false)
    (hk : e.rule.derive v = .ok k) (hsince : 0 ≤ horizon) (hrange : horizon ≤ Word.greatest) :
    (∀ (c : Conditions α) (server : FieldStore.Memory) (left : Option Nat),
      c.luck.Steady horizon → server.Distinct → server.Near (c.luck.clock 0) →
        ∃ result s, c.run e enc (.ok v) left server = .ok (result, s) ∧ s.Sound c.luck) ↔
      horizon + 1000 * e.settings.expiresAfter ≤ Word.greatest := by
  constructor
  · intro returns
    by_contra narrow
    obtain ⟨overflow, hoverflow⟩ : ∃ overflow, (Conditions.still α horizon).run e enc (.ok v) none
        .empty = .error overflow := run_overflows enabled hk hsince hrange (by omega)
    obtain ⟨result, s, hrun, -⟩ := returns (.still α horizon) .empty none (steady_still hsince)
      List.nodup_nil (FieldStore.Memory.near_empty _)
    cases hoverflow.symm.trans hrun
  · intro room c server left steady distinct near
    exact run_returns steady (Settings.lasts_of_validate valid) room distinct near

/-! ### Orders at the ends of the range -/

/-- The engine that charges an order, with records that count for so many seconds. -/
def lasting (seconds : Nat) : Engine :=
  { charging 0 with settings := { (charging 0).settings with expiresAfter := seconds } }

/-- A run for the order while the clock stands still, on a server that holds nothing. -/
def chargedAt (seconds : Nat) (time : Millis) : Except Overflow (Except Error String × Premises) :=
  (Conditions.still String time).run (lasting seconds) plain (.ok (.string "order")) none .empty

theorem lasting_key (seconds : Nat) :
    (lasting seconds).rule.derive (.string "order") = .ok order := by
  show (charging 0).rule.derive (.string "order") = .ok order
  decide +kernel

/-- Records of an hour leave the figures in range until an hour before the last millisecond. -/
theorem hour_inRange :
    (lasting 3600).settings.validate = .ok () ∧ (lasting 3600).settings.disabled = false ∧
      (lasting 3600).rule.derive (.string "order") = .ok order ∧
      ∃ result s, chargedAt 3600 9223372036851175807 = .ok (result, s) ∧
        s.Sound (Conditions.still String 9223372036851175807).luck := by
  refine ⟨rfl, rfl, lasting_key 3600, ?_⟩
  exact (run_inRange_iff rfl rfl (lasting_key 3600) (by decide) (by decide)).mpr (by decide) _ _ _
    (steady_still (by decide)) List.nodup_nil (FieldStore.Memory.near_empty _)

/-- The figure that was out of range. -/
def overflow? {β : Type} : Except Overflow β → Option Int
  | .error overflow => some overflow.figure
  | .ok _ => none

/-- The longest expiry that a configuration can have is accepted, and no run with it survives the
claim of the order: its time to live is too long to be counted in milliseconds. -/
theorem longest_overflows :
    (lasting 18446744073709551615).settings.validate = .ok () ∧
      overflow? (chargedAt 18446744073709551615 0) = some (9223372036854775807 * 1000) ∧
      ¬ ∃ result s, chargedAt 18446744073709551615 0 = .ok (result, s) := by
  have hoverflow : overflow? (chargedAt 18446744073709551615 0) =
      some (9223372036854775807 * 1000) := by decide +kernel
  refine ⟨rfl, hoverflow, fun ⟨result, s, hrun⟩ => ?_⟩
  rw [hrun] at hoverflow
  cases hoverflow

end Engine

end AtMostOnce
