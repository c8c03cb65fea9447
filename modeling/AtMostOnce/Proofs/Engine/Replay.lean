/-
What was returned is replayed.

A run that has returned its function's result leaves a completed record with that result and
with the digest of its payload: so says whatever is found under the key later, and so says the
cache (`Errand.left_by_returned`).  While that record is found in force it holds the key, so
any number of calls leave it as it is, and a run of the key for a payload with the same digest
gets it from its cache or from the ledger and replays it (`result_replayed`).
-/
import AtMostOnce.Proofs.Engine.Guard
import AtMostOnce.Proofs.Engine.Orphans

namespace AtMostOnce

/-- The record has the text of a result, and no other digest than that. -/
def Record.Carries (r : Record) (text digest : String) : Prop :=
  r.data = some text ∧ PayloadCheck.agrees (r.payloadHash.getD "") digest = true

/-! ### Records that are offered -/

namespace Ledger.Store

variable {s : Store} {now time later : Millis} {k : Key} {text : String}

/-- A completed record with the text is found under the key at the one time, and it has not expired
by the other one. -/
def Offers (s : Store) (k : Key) (text : String) (time later : Millis) : Prop :=
  ∃ r, s.find? time k = .ok r ∧ r.status = .completed ∧ r.data = some text ∧
    r.isExpired (secondsOf later) = false

/-- A record that is offered is not replaced meanwhile. -/
theorem Offers.stays (h : s.Offers k text time later) (hle : time ≤ later) :
    ∃ r, s.find? time k = .ok r ∧ r.isReplaceable time = false ∧ r.data = some text ∧
      r.status = .completed ∧ r.isExpired (secondsOf later) = false := by
  obtain ⟨r, hfound, completed, hdata, inForce⟩ := h
  refine ⟨r, hfound, ?_, hdata, completed, inForce⟩
  have unexpired : r.isExpired (secondsOf time) = false := by
    rw [← Bool.not_eq_true] at inForce ⊢
    exact fun hexpired => inForce (Record.isExpired_later hexpired (Engine.secondsOf_le hle))
  simp [Record.isReplaceable, unexpired, completed]

/-- The millisecond from which the key is gone. -/
def dropAt? (s : Store) (now : Millis) (k : Key) : Option Millis :=
  match s with
  | memory _ => none
  | fields _ server => (server.entry? now k.text).bind FieldStore.Entry.dropAt

/-- The seconds that are left are counted from the time at which a record is found. -/
theorem not_isExpired_found {names : FieldNames} {fields : FieldStore.Fields} {time d : Int}
    {r : Record} (hlive : time < d) (hpos : 0 ≤ time) (hfits : d + 500 ≤ Word.greatest)
    (h : Fields.recordAt names k time fields (FieldStore.Memory.secondsUntil time d) = .ok r) :
    r.isExpired (secondsOf time) = false := by
  unfold Word.greatest at hfits
  have inRange : ∀ n : Int, 0 ≤ n → n ≤ d + 500 → Word.wrap n = n := by
    intro n hn hle
    refine Word.wrap_eq ?_
    unfold Word.InRange Word.least Word.greatest
    omega
  have hleft : FieldStore.Memory.secondsUntil time d = (d - time + 500) / 1000 := by
    rw [FieldStore.Memory.secondsUntil_wrap, inRange (d - time) (by omega) (by omega),
      inRange _ (by omega) (by omega), Int.tdiv_eq_ediv_of_nonneg (by omega)]
  have hexpiry : r.expiry = some (time / 1000 + (d - time + 500) / 1000) := by
    rw [hleft] at h
    unfold Fields.recordAt at h
    split at h
    · cases h
    · cases h
      rw [if_pos (by omega), secondsOf, inRange _ (by omega) (by omega)]
  have counts : ¬ time / 1000 + (d - time + 500) / 1000 < time / 1000 := by omega
  rw [Record.isExpired, hexpiry]
  exact decide_eq_false counts

/-- On a server of fields a completed record is in force when it is found, as long as it is
there. -/
theorem Offers.lasts (h : s.Offers k text now now) (sound : s.Sound) {d : Millis}
    (hdrop : s.dropAt? now k = some d) (hle : now ≤ time) (hlive : time < d) (hpos : 0 ≤ time)
    (hfits : d + 500 ≤ Word.greatest) : s.Offers k text time time := by
  obtain ⟨r, hfound, completed, hdata, -⟩ := h
  cases s with
  | memory records => cases hdrop
  | fields names server =>
    -- the entry stays the same, only the record is made anew of it, with what time is left then
    obtain ⟨e, he, hfilled, hrecord⟩ := Fields.find_fields hfound
    obtain ⟨hstatus, htext, -⟩ := Fields.recordAt_ok hrecord
    have hd : e.dropAt = some d := by simpa [dropAt?, he] using hdrop
    have he' : server.entry? time k.text = some e := by
      rw [FieldStore.Memory.entry?_later sound.distinct hle, he]
      simp [Option.filter, FieldStore.Memory.isLive, hd, hlive]
    have httl : server.ttl time k.text = FieldStore.Memory.secondsUntil time d := by
      rw [FieldStore.Memory.ttl_eq, he']
      cases e
      cases hd
      rfl
    have hfind : (fields names server).find? time k =
        Fields.recordAt names k time e.fields (FieldStore.Memory.secondsUntil time d) := by
      show (Fields.alone time "" (Fields.find names k) server).1 = _
      rw [Fields.alone_find, FieldStore.Memory.fields?, he', httl]
      simp [hfilled]
    cases hlater : Fields.recordAt names k time e.fields
        (FieldStore.Memory.secondsUntil time d) with
    | error err => simp [Fields.recordAt, hstatus] at hlater
    | ok r' =>
      obtain ⟨hstatus', htext', -⟩ := Fields.recordAt_ok hlater
      refine ⟨r', hfind.trans hlater, ?_, htext'.trans (htext.symm.trans hdata),
        not_isExpired_found hlive hpos hfits hlater⟩
      exact (Except.ok.inj (hstatus'.symm.trans hstatus)).trans completed

end Ledger.Store

namespace Engine

variable {κ α : Type} [DecidableEq κ] {chance : Chance κ} {s s' : Office κ} {v : Errand κ} {k : Key}
  {c : Call κ α} {text digest : String}

/-! ### What a run leaves that returns its function's result -/

/-- Whatever is found under the key from now on has the digest of the call's payload, and so do the
records of the key in the cache, with the text. -/
structure Office.Left (s : Office κ) (c : Call κ α) (k : Key) (text : String) : Prop where
  agrees : ∀ t r, s.now ≤ t → s.store.find? t k = .ok r →
    PayloadCheck.agrees (r.payloadHash.getD "") c.digest = true
  completed : s.store.Distinct → ∀ t r, s.now ≤ t → s.store.find? t k = .ok r →
    r.status = .completed ∧ r.data = some text
  cached : c.engine.caches = true → ∀ r ∈ (s.caches c.cache).records, r.key = k →
    r.Carries text c.digest

/-- What holds at the stops of a run: before it is granted its claim nothing was started, and then
its cache has no record of the key, until it has written what it leaves. -/
def Errand.Writes (v : Errand κ) (enc : Encoding v.Result) (s : Office κ) (k : Key)
    (s' : Office κ) : Stop v.Result → Prop
  | .looking | .found _ | .denied | .lost _ | .met _ => s'.started = s.started
  | .missed => s'.started = s.started ∧
      (v.call.engine.caches = true → (s'.caches v.call.cache).Lacks k)
  | .granted claim | .running claim | .ended claim _ => claim.key = k ∧
      claim.payloadHash = Record.nonEmptyHash (some v.call.digest) ∧
      (v.call.engine.caches = true → (s'.caches v.call.cache).Lacks k)
  | .completed claim a => claim.key = k ∧
      claim.payloadHash = Record.nonEmptyHash (some v.call.digest) ∧
      ∀ text, enc.store ⟨k, v.call.engine.functionName⟩ a = .ok text → s'.Left v.call k text
  | .removed _ _ | .forgotten _ _ => True
  | _ => False

omit [DecidableEq κ] in
theorem Office.Left.pass (h : s.Left c k text) : (s.pass chance).Left c k text where
  agrees t r hle := h.agrees t r (Int.le_trans (Office.now_pass chance s) hle)
  completed distinct t r hle :=
    h.completed distinct t r (Int.le_trans (Office.now_pass chance s) hle)
  cached hcaches r hr := h.cached hcaches r (Cache.mem_lose hr)

omit [DecidableEq κ] in
theorem Errand.Writes.pass {enc : Encoding v.Result} {stop : Stop v.Result}
    (h : v.Writes enc s k s' stop) : v.Writes enc s k (s'.pass chance) stop := by
  cases stop with
  | missed => exact ⟨h.1, fun hcaches => (h.2 hcaches).lose⟩
  | granted claim => exact ⟨h.1, h.2.1, fun hcaches => (h.2.2 hcaches).lose⟩
  | running claim => exact ⟨h.1, h.2.1, fun hcaches => (h.2.2 hcaches).lose⟩
  | ended claim outcome => exact ⟨h.1, h.2.1, fun hcaches => (h.2.2 hcaches).lose⟩
  | completed claim a => exact ⟨h.1, h.2.1, fun text htext => (h.2.2 text htext).pass⟩
  | _ => exact h

/-- A completion leaves the text and the digest under the key. -/
theorem Errand.left_by_complete {claim r : Record} {a : v.Result} {token : String}
    {enc : Encoding v.Result} {remaining : Option Nat} (sound : s.store.Sound)
    (ht : v.call.task = .run enc remaining) (completes : v.call.completes claim a r)
    (hhash : claim.payloadHash = Record.nonEmptyHash (some v.call.digest))
    (lacks : v.call.engine.caches = true → (s.caches v.call.cache).Lacks claim.key)
    (htext : enc.store ⟨claim.key, v.call.engine.functionName⟩ a = .ok text) :
    (v.reply token s (.ledger (.complete r))).2.Left v.call claim.key text := by
  obtain ⟨enc', remaining', data, expiry, ht', hdata, hrecord⟩ := completes
  cases ht.symm.trans ht'
  obtain rfl : text = data := Except.ok.inj (htext.symm.trans hdata)
  have hkey : claim.key = r.key := by rw [hrecord]
  rw [hkey]
  refine ⟨?_, ?_, ?_⟩
  · intro t r' hle hfound
    exact Ledger.Store.agrees_of_complete sound (by rw [hrecord, hhash]) hle hfound
  · intro distinct t r' hle hfound
    exact Ledger.Store.completed_of_complete sound distinct.of_answer (by rw [hrecord])
      (by rw [hrecord]) hle hfound
  · intro hcaches r' hr' hkey'
    exact absurd (hkey'.trans hkey.symm) (lacks hcaches r' hr')

theorem Errand.Writes.move {enc : Encoding v.Result} {remaining : Option Nat}
    {stop stop' : Stop v.Result} {q : Request} {token : String} (h : v.Writes enc s k s' stop)
    (sound : s'.store.Sound) (ht : v.call.task = .run enc remaining) (hk : v.call.key? = some k)
    (move : v.call.Move stop q (v.reply token s' q).1 stop') :
    v.Writes enc s k (v.reply token s' q).2 stop' := by
  have own : ∀ {k'}, v.call.key? = some k' → k = k' :=
    fun hk' => Option.some.inj (hk.symm.trans hk')
  generalize ha : (v.reply token s' q).1 = a at move
  cases move with
  | now => exact h
  | note => exact h
  | retry hgives =>
    obtain ⟨r, rfl⟩ | ⟨err, rfl⟩ := hgives
    · exact h
    · exact h
  | found => exact h
  | @missed k' hcaches hk' =>
    obtain rfl := own hk'
    refine ⟨h, fun _ => ?_⟩
    rw [Errand.cache_cached]
    exact Cache.lacks_of_get_none ha
  | granted hclaims hs =>
    obtain ⟨k', expiry, deadline, hk', rfl⟩ := hclaims
    obtain rfl := own hk'
    refine ⟨rfl, rfl, fun hcaches => ?_⟩
    obtain rfl | ⟨rfl, huncached⟩ := hs
    · exact h.2 hcaches
    · simp [hcaches] at huncached
  | denied _ hs =>
    obtain rfl | ⟨rfl, -⟩ := hs
    · exact h.1
    · exact h
  | met => exact h
  | lost => exact h
  | keepMet => exact h
  | keepCompleted hcaches hk' completes =>
    obtain ⟨rfl, hhash, left⟩ := h
    refine ⟨rfl, hhash, fun text htext => ?_⟩
    have before := left text htext
    refine ⟨before.agrees, before.completed, fun _ r hr hkey => ?_⟩
    rcases Errand.mem_caches_reply hr with hmem | hkept
    · exact before.cached hcaches r hmem hkey
    · obtain ⟨enc', remaining', data, expiry, ht', hdata, hrecord⟩ := completes
      cases ht.symm.trans ht'
      obtain rfl : text = data := Except.ok.inj (htext.symm.trans hdata)
      injection hkept with hkept
      rw [← hkept, hrecord]
      exact ⟨rfl, hhash ▸ PayloadCheck.agrees_nonEmptyHash _⟩
  | starts => exact h
  | ends => exact h
  | completed hk' completes =>
    obtain ⟨rfl, hhash, lacks⟩ := h
    exact ⟨rfl, hhash, fun text => Errand.left_by_complete sound ht completes hhash lacks⟩
  | removed => trivial
  | forgotten => trivial
  | _ => exact h.elim

/-- **What a run leaves that has started its function and returned its result.** -/
theorem Errand.left_by_returned {enc : Encoding v.Result} {remaining : Option Nat} {a : v.Result}
    (sound : s.store.Sound) (enabled : v.call.engine.settings.disabled = false)
    (ht : v.call.task = .run enc remaining) (hk : v.call.key? = some k)
    (starts : s.Starts k (v.serve chance s).2)
    (returns : (v.serve chance s).1 = .returned (.ok a))
    (htext : enc.store ⟨k, v.call.engine.functionName⟩ a = .ok text) :
    (v.serve chance s).2.Left v.call k text := by
  have keeps : v.Keeps s chance (v.Writes enc s k) := by
    refine ⟨?_, fun token q s' stop stop' sound' _ h move => h.move sound' ht hk move,
      fun s' stop _ h => h.pass⟩
    rw [Call.departs_run ht enabled]
    rfl
  obtain ⟨-, -, stop, h, harrives⟩ := Errand.served sound keeps
  obtain ⟨result, hresult, hsettles, -⟩ := harrives.of_run ht
  obtain rfl : Except.ok a = result := Ending.returned.inj (returns.symm.trans hresult)
  cases stop with
  | completed claim a' =>
    obtain rfl : a = a' := Except.ok.inj hsettles
    exact h.2.2 text htext
  | looking => exact absurd starts (Office.not_starts h)
  | found r => exact absurd starts (Office.not_starts h)
  | lost err => exact absurd starts (Office.not_starts h)
  | met r => exact absurd starts (Office.not_starts h)
  | ended claim outcome =>
    cases outcome with
    | ok a' =>
      obtain ⟨err, -, herr⟩ := hsettles
      cases herr
    | error f => cases hsettles.2
  | removed claim f => cases hsettles.2
  | forgotten claim f => cases hsettles
  | missed => exact hsettles.elim
  | denied => exact hsettles.elim
  | granted claim => exact hsettles.elim
  | running claim => exact hsettles.elim
  | _ => exact h.elim

/-! ### What a run does that is offered the result -/

/-- The call is a run of the key for a payload with the same digest as that of the other call.  It
has the cache of the other call or none, it changes no results, and it decodes the text. -/
structure Call.Repeats (call c : Call κ α) (enc : Encoding α) (k : Key) (a : α) (text : String) :
    Prop where
  unhooked : call.engine.settings.responseHook = none
  runs : ∃ remaining, call.task = .run enc remaining
  key : call.key? = some k
  digest : call.digest = c.digest
  decodes : enc.replay ⟨k, call.engine.functionName⟩ text = .ok a
  cache : call.engine.caches = true → c.engine.caches = true ∧ call.cache = c.cache

section

variable {e : Engine} {enc : Encoding α} {payload : Json.Value} {started started' : Bool}
  {l : List (Act α)} {result : Except Error α} {good held : Record → Prop} {last : Millis} {a : α}

/-- A record in force is replayed. -/
theorem Settling.replayed {r : Record} (h : Settling e enc k r l result)
    (guarded : ∀ x ∈ l, x.Guarded good held last) (completed : r.status = .completed)
    (inForce : r.isExpired (secondsOf last) = false)
    (decodes : e.replay enc ⟨k, e.functionName⟩ r = .ok a) : result = .ok a := by
  have statusAt : ∀ {t}, t ≤ last → r.statusAt (secondsOf t) = .completed := by
    intro t hle
    rw [Record.statusAt, if_neg, completed]
    intro hexpired
    have hlater := Record.isExpired_later hexpired (secondsOf_le hle)
    simp [inForce] at hlater
  cases h with
  | expired hst => cases hst.symm.trans (statusAt (guarded _ List.mem_cons_self))
  | overdue hst => cases hst.symm.trans (statusAt (guarded _ List.mem_cons_self))
  | busy hst => cases hst.symm.trans (statusAt (guarded _ List.mem_cons_self))
  | replays _ hdecoded => exact congrArg Except.ok (Except.ok.inj (hdecoded.symm.trans decodes))
  | spoilt _ hundecoded => cases hundecoded.symm.trans decodes

/-- A run that gets none but records that it can replay does so in its first attempt. -/
theorem Running.replayed {retries : Nat} (h : Running e enc payload retries started l result)
    (guarded : ∀ x ∈ l, x.Guarded good held last) (hgood : ∀ r, held r → good r)
    (replays : ∀ r, good r → e.check.accepts r (e.check.compute payload) = true ∧
      e.replay enc ⟨k, e.functionName⟩ r = .ok a)
    (inForce : ∀ r, held r → r.status = .completed ∧ r.isExpired (secondsOf last) = false)
    (hk : e.rule.derive payload = .ok k) : result = .ok a := by
  have first : ∀ {l result started'}, Attempting e enc payload started l (result, started') →
      (∀ x ∈ l, x.Guarded good held last) → result = .ok a := by
    intro l result started' attempting guarded
    obtain ⟨r, hr, hends⟩ := attempting.of_guarded guarded hgood hk
    obtain ⟨haccepts, hreplay⟩ := replays r hr
    rcases hends with ⟨hrefuses, -⟩ | ⟨-, hresult | ⟨hheld, more, settling, hmore⟩⟩
    · simp [haccepts] at hrefuses
    · exact hresult.trans hreplay
    · obtain ⟨completed, unexpired⟩ := inForce r hheld
      exact settling.replayed hmore completed unexpired hreplay
  cases h with
  | last attempting => exact first attempting guarded
  | again attempting =>
    cases first attempting fun x hx => guarded x (by simp [hx])

end

omit [DecidableEq κ] in
theorem Call.Repeats.replays {call : Call κ α} {enc : Encoding α} {a : α} {payload : Json.Value}
    {r : Record} (h : call.Repeats c enc k a text) (hp : call.payload = .ok payload)
    (carries : r.Carries text c.digest) :
    call.engine.check.accepts r (call.engine.check.compute payload) = true ∧
      call.engine.replay enc ⟨k, call.engine.functionName⟩ r = .ok a := by
  obtain ⟨hdata, hagrees⟩ := carries
  have hdigest : call.engine.check.compute payload = c.digest := by
    rw [← h.digest, Call.digest, hp]
  constructor
  · simp [PayloadCheck.accepts, hdigest, hagrees]
  · simp [replay, hdata, h.unhooked, h.decodes]

/-- A run that is offered the result while it lasts replays it. -/
theorem Errand.replays_offered {enc : Encoding v.Result} {a : v.Result} {c : Call κ v.Result}
    (sound : s.store.Sound) (enabled : v.call.engine.settings.disabled = false)
    (repeats : v.call.Repeats c enc k a text)
    (cached : s.Caches v.call k fun r => r.Carries text c.digest)
    (offers : ∀ t, s.now ≤ t → t ≤ (v.serve chance s).2.now →
      s.store.Offers k text t (v.serve chance s).2.now)
    (agrees : ∀ t r, s.now ≤ t → s.store.find? t k = .ok r →
      PayloadCheck.agrees (r.payloadHash.getD "") c.digest = true) :
    (v.serve chance s).1 = .returned (.ok a) ∧ (v.serve chance s).2.started = s.started ∧
      s.store.Shows (v.serve chance s).2.store (v.serve chance s).2.now k := by
  obtain ⟨remaining, ht⟩ := repeats.runs
  obtain ⟨payload, hp, hderive⟩ := Call.key?_eq_some repeats.key
  have holds : s.Holds k (fun r => r.Carries text c.digest ∧ r.status = .completed ∧
      r.isExpired (secondsOf (v.serve chance s).2.now) = false) (v.serve chance s).2.now := by
    intro t hle hlast
    obtain ⟨r, hfound, stays, hdata, inForce⟩ := (offers t hle hlast).stays hlast
    exact ⟨r, hfound, stays, ⟨hdata, agrees t r hle hfound⟩, inForce⟩
  obtain ⟨⟨stop, spared⟩, result, hresult, running⟩ := Errand.guarded_run sound cached
    (fun r hr => hr.1) holds (Int.le_refl _) enabled ht hp repeats.key
  have hreplayed := running.replayed spared.guarded (fun r hr => hr.1)
    (fun r => repeats.replays hp) (fun r hr => hr.2) hderive
  exact ⟨hreplayed ▸ hresult, spared.started, spared.guards.shows⟩

/-! ### Later runs -/

/-- Another call with results of the same kind. -/
def Errand.next (v : Errand κ) (call : Call κ v.Result) (outcome : Except Failure v.Result) :
    Errand κ := ⟨v.Result, call, outcome⟩

/-- **What a run has returned is replayed while its record lasts.**

A run starts its function, returns the function's result, and so leaves its record in the ledger;
what is found there later is that record, completed and with the text of the result.  Then any calls
may come that do not delete it, and after them a run of the key with the same digest.  If the record
was found in force up to the end of that run, and what is found during that run has not expired by
its end, the run returns the same result, its function is not started, and what is found under the
key is what the first run has left there. -/
theorem result_replayed {enc : Encoding v.Result} {remaining : Option Nat} {a : v.Result}
    {left : Office κ} (sound : s.store.Sound) (served : left = (v.serve chance s).2)
    (enabled : v.call.engine.settings.disabled = false) (ht : v.call.task = .run enc remaining)
    (hk : v.call.key? = some k) (starts : s.Starts k left)
    (returns : (v.serve chance s).1 = .returned (.ok a))
    (htext : enc.store ⟨k, v.call.engine.functionName⟩ a = .ok text) :
    (left.store.Distinct → ∀ t r, left.now ≤ t → left.store.find? t k = .ok r →
        r.status = .completed ∧ r.data = some text) ∧
      ∀ (others : List (Nat × Errand κ)) (pause : Nat) (call : Call κ v.Result)
        (outcome : Except Failure v.Result) (found ended : Office κ),
        (∀ x ∈ others, x.2.call.key? = some k → x.2.call.task ≠ .delete) →
        found = (left.after chance others).wait pause →
        ended = ((v.next call outcome).serve chance found).2 →
        call.engine.settings.disabled = false → call.Repeats v.call enc k a text →
        (∀ t, left.now ≤ t → t ≤ ended.now → left.store.Offers k text t t) →
        (∀ t, found.now ≤ t → t ≤ ended.now → left.store.Offers k text t ended.now) →
          ((v.next call outcome).serve chance found).1 = .returned (.ok a) ∧
            ended.started = found.started ∧ left.store.Shows ended.store ended.now k := by
  have writes : left.Left v.call k text := by
    subst served
    exact Errand.left_by_returned sound enabled ht hk starts returns htext
  refine ⟨writes.completed, ?_⟩
  intro others pause call outcome found ended spare hfound hended henabled repeats inForce
    offers
  have soundLeft : left.store.Sound := served ▸ Errand.sound_serve sound chance v
  have soundOthers := Office.sound_after soundLeft chance others
  have soundFound : found.store.Sound := hfound ▸ soundOthers
  have hpause : (left.after chance others).now ≤ found.now := by
    rw [hfound]
    exact Int.le_add_of_nonneg_right (Int.natCast_nonneg _)
  have hlast : found.now ≤ ended.now := hended ▸ Errand.now_serve soundFound
  -- up to the end of the run the record holds its key
  have holds : left.Holds k (fun r => r.Carries text v.call.digest) ended.now := by
    intro t hle hend
    obtain ⟨r, hr, stays, hdata, -⟩ := (inForce t hle hend).stays (Int.le_refl t)
    exact ⟨r, hr, stays, hdata, writes.agrees t r hle hr⟩
  have cached : left.Caches call k fun r => r.Carries text v.call.digest := by
    intro hcaches r hr hkey _
    obtain ⟨hcaches', hcache⟩ := repeats.cache hcaches
    exact writes.cached hcaches' r (hcache ▸ hr) hkey
  have guards : left.Guards call k (fun r => r.Carries text v.call.digest) found := by
    rw [hfound]
    exact ((Office.Guards.refl cached).after others soundLeft (fun _ => id) holds
      (Int.le_trans hpause hlast) (derived_of_key? hk) spare).wait pause
  have offers' : ∀ t, found.now ≤ t → t ≤ ended.now → found.store.Offers k text t ended.now := by
    intro t hle hend
    obtain ⟨r, hr, hrest⟩ := offers t hle hend
    exact ⟨r, (guards.shows t hle).trans hr, hrest⟩
  have agrees : ∀ t r, found.now ≤ t → found.store.find? t k = .ok r →
      PayloadCheck.agrees (r.payloadHash.getD "") v.call.digest = true := by
    intro t r hle hr
    rw [guards.shows t hle] at hr
    exact writes.agrees t r (Int.le_trans guards.now hle) hr
  subst hended
  obtain ⟨hresult, hstarted, hshows⟩ := Errand.replays_offered (v := v.next call outcome)
    soundFound henabled repeats guards.caches offers' agrees
  refine ⟨hresult, hstarted, fun t hle => ?_⟩
  exact (hshows t hle).trans (guards.shows t (Int.le_trans hlast hle))

/-! ### A payment that is asked for again -/

/-- The first run over a new ledger starts its function and returns what that does. -/
theorem Errand.starts_of_blank {enc : Encoding v.Result} {remaining : Option Nat} {a : v.Result}
    {store : Ledger.Store} (blank : store.Blank) (chance : Chance κ) (now : Millis)
    (capacity : κ → Nat) (enabled : v.call.engine.settings.disabled = false)
    (ht : v.call.task = .run enc remaining) (hk : v.call.key? = some k) (ha : v.outcome = .ok a)
    (htext : enc.store ⟨k, v.call.engine.functionName⟩ a = .ok text) :
    (Office.opened now store capacity).Starts k
        (v.serve chance (.opened now store capacity)).2 ∧
      (v.serve chance (.opened now store capacity)).1 = .returned (.ok a) := by
  have isOpen : store.Open now k := (blank.vacant now k).isOpen blank.sound
  exact (Errand.starts_of_open (s := .opened now store capacity) blank.sound isOpen nofun enabled
    ht hk).imp_right fun returns => returns a text ha htext

/-- The order has been paid. -/
def paid : Office Unit :=
  ((charged true (.ok "paid")).serve quiet (.opened 0 (.fields .initial .empty) fun _ => 4)).2

/-- A second later, when the payment has been replayed once from the cache. -/
def paidBefore : Office Unit := (paid.after quiet [(0, charged true (.ok "again"))]).wait 1000

/-- The record of a payment. -/
def receipt (expiry : Seconds) (deadline : Option Millis) : Record :=
  ⟨order, .completed, some expiry, deadline, some "paid", none⟩

/-- An engine without a cache replays the payment from the ledger. -/
theorem paidBefore_replays :
    ((charged false (.ok "again")).serve quiet paidBefore).1 = .returned (.ok "paid") ∧
      ((charged false (.ok "again")).serve quiet paidBefore).2.started = paidBefore.started ∧
      paid.store.Shows ((charged false (.ok "again")).serve quiet paidBefore).2.store
        ((charged false (.ok "again")).serve quiet paidBefore).2.now order := by
  have blank : Ledger.Store.Blank (.fields .initial .empty) := rfl
  have sound : paid.store.Sound := Errand.sound_serve blank.sound quiet _
  obtain ⟨hpaid, hbefore, hended, hfound, hdrop⟩ : paid.now = 0 ∧ paidBefore.now = 1000 ∧
      ((charged false (.ok "again")).serve quiet paidBefore).2.now = 1000 ∧
      paid.store.find? 0 order = .ok (receipt 3600 (some 1000)) ∧
      paid.store.dropAt? 0 order = some 3600000 := by decide +kernel
  have offers : paid.store.Offers order "paid" 0 0 := ⟨_, hfound, rfl, rfl, rfl⟩
  have lasts : ∀ t : Int, 0 ≤ t → t ≤ 1000 → paid.store.Offers order "paid" t t :=
    fun t hle hend => offers.lasts sound hdrop hle (Int.lt_of_le_of_lt hend (by decide)) hle
      (by decide)
  obtain ⟨starts, returns⟩ := Errand.starts_of_blank (v := charged true (.ok "paid")) blank quiet 0
    (fun _ => 4) rfl rfl (charged_key true _) rfl rfl
  obtain ⟨-, replays⟩ := result_replayed blank.sound (rfl : paid = _) rfl rfl (charged_key true _)
    starts returns rfl
  refine replays [(0, charged true (.ok "again"))] 1000 (charged false (.ok "again")).call
    (.ok "again") paidBefore _ ?_ rfl rfl rfl ?_ ?_ ?_
  · simp [charged]
  · exact ⟨rfl, ⟨_, rfl⟩, charged_key false _, rfl, rfl, nofun⟩
  · intro t hle hend
    rw [hpaid] at hle
    exact lasts t hle (hended ▸ hend)
  · intro t hle hend
    have ht : t = 1000 := Int.le_antisymm (hended ▸ hend) (hbefore ▸ hle)
    have hlast := lasts 1000 (by decide) (by decide)
    rw [ht]
    exact hended ▸ hlast

/-! ### Payments that are not replayed -/

/-- Would every run replay the result of the one before, so long as the record of that is found in
force, over a ledger that was new?  It is a run of an engine of that kind. -/
def ReplaysAlways (store : Ledger.Store) (admits : Engine → Prop) : Prop :=
  ∀ (now : Millis) (capacity : Unit → Nat) (chance : Chance Unit) (s left found ended : Office Unit)
    (v : Errand Unit) (enc : Encoding v.Result) (remaining : Option Nat) (k : Key) (a : v.Result)
    (text : String) (pause : Nat) (call : Call Unit v.Result) (outcome : Except Failure v.Result),
    s = .opened now store capacity → left = (v.serve chance s).2 →
    v.call.engine.settings.disabled = false → v.call.task = .run enc remaining →
    v.call.key? = some k → s.Starts k left → (v.serve chance s).1 = .returned (.ok a) →
    enc.store ⟨k, v.call.engine.functionName⟩ a = .ok text → found = left.wait pause →
    ended = ((v.next call outcome).serve chance found).2 →
    admits call.engine → call.Repeats v.call enc k a text →
    (∀ t, left.now ≤ t → t ≤ ended.now → left.store.Offers k text t t) →
      ((v.next call outcome).serve chance found).1 = .returned (.ok a)

/-- A run for the order by an engine that is disabled. -/
def unrecorded : Call Unit String :=
  ⟨{ declining false with settings := { (declining false).settings with disabled := true } }, (),
    .ok (.string "order"), .run plain none⟩

/-- A run for the order whose record counts for two seconds. -/
def brief : Errand Unit :=
  ⟨String, ⟨{ charging 0 with settings := { (charging 0).settings with expiresAfter := 2 } }, (),
    .ok (.string "order"), .run plain none⟩, .ok "paid"⟩

/-- Time passes when the second run has found the record. -/
def lateAfterFind : Chance Unit :=
  ⟨fun _ => "token", fun n => if n = 16 then 1400 else 0, fun _ _ _ => false⟩

/-- The order has been paid over a ledger in memory, and for two seconds over a server of fields. -/
def paidInMemory : Office Unit :=
  ((charged false (.ok "paid")).serve quiet (.opened 0 (.memory []) fun _ => 4)).2

def paidBriefly : Office Unit :=
  (brief.serve lateAfterFind (.opened 400 (.fields .initial .empty) fun _ => 4)).2

/-- Has the call returned a result of its function, or of one before? -/
def Ending.isOk {α : Type} : Ending α → Bool
  | .returned (.ok _) => true
  | _ => false

/-- A run by an engine that is disabled calls its function.  A run over a server of fields does not
replay a record that expires after it was found: its seconds were rounded then, and in the ledger it
is still in force. -/
theorem replays_not_always : ¬ ReplaysAlways (.memory []) (fun _ => True) ∧
    ¬ ReplaysAlways (.fields .initial .empty) (fun e => e.settings.disabled = false) := by
  constructor
  · intro always
    have blank : Ledger.Store.Blank (.memory []) := rfl
    obtain ⟨starts, returns⟩ := Errand.starts_of_blank (v := charged false (.ok "paid")) blank
      quiet 0 (fun _ => 4) rfl rfl (charged_key false _) rfl rfl
    obtain ⟨hnow, hfound⟩ : paidInMemory.now = 0 ∧
        paidInMemory.store.find? 0 order = .ok (receipt 3600 none) := by decide +kernel
    have offers : paidInMemory.store.Offers order "paid" 0 0 := ⟨_, hfound, rfl, rfl, rfl⟩
    have replayed := always 0 (fun _ => 4) quiet _ paidInMemory _ _ (charged false (.ok "paid"))
      plain _ order "paid" "paid" 0 unrecorded (.ok "again") rfl rfl rfl rfl (charged_key false _)
      starts returns rfl rfl rfl trivial
      ⟨rfl, ⟨_, rfl⟩, charged_key false (.ok "again"), rfl, rfl, nofun⟩ ?_
    · have hagain : "again" = "paid" := Except.ok.inj (Ending.returned.inj replayed)
      simp at hagain
    · intro t hle hend
      have ht : t = 0 := Int.le_antisymm hend (hnow ▸ hle)
      rw [ht]
      exact offers
  · intro always
    have hkey : brief.call.key? = some order := charged_key false (.ok "paid")
    have blank : Ledger.Store.Blank (.fields .initial .empty) := rfl
    obtain ⟨starts, returns⟩ := Errand.starts_of_blank (v := brief) blank lateAfterFind 400
      (fun _ => 4) rfl rfl hkey rfl rfl
    obtain ⟨hnow, hfound, hdrop, hended, hfails⟩ : paidBriefly.now = 400 ∧
        paidBriefly.store.find? 400 order = .ok (receipt 2 none) ∧
        paidBriefly.store.dropAt? 400 order = some 2400 ∧
        ((brief.next brief.call (.ok "again")).serve lateAfterFind (paidBriefly.wait 599)).2.now =
          2399 ∧
        ((brief.next brief.call (.ok "again")).serve lateAfterFind
          (paidBriefly.wait 599)).1.isOk = false := by decide +kernel
    have offers : paidBriefly.store.Offers order "paid" 400 400 := ⟨_, hfound, rfl, rfl, rfl⟩
    have sound : paidBriefly.store.Sound := Errand.sound_serve blank.sound lateAfterFind _
    have replayed := always 400 (fun _ => 4) lateAfterFind _ paidBriefly _ _ brief plain _ order
      "paid" "paid" 599 brief.call (.ok "again") rfl rfl rfl rfl hkey starts returns rfl rfl rfl rfl
      ⟨rfl, ⟨_, rfl⟩, hkey, rfl, rfl, nofun⟩ ?_
    · rw [replayed] at hfails
      cases hfails
    · intro t hle hend
      rw [hnow] at hle
      rw [hended] at hend
      exact offers.lasts sound hdrop hle (Int.lt_of_le_of_lt hend (by decide))
        (Int.le_trans (by decide) hle) (by decide)

end Engine

end AtMostOnce
