/-
A cache changes nothing.

Two desks serve the same calls, one with a cache and one without.  They are twins: the
same time, the same records, and all that the cache holds is completed and stands in the
ledger as it is (`Twins`).  A question that is not about the cache keeps them twins
because it is answered by the books alone.  What the cache adds is one way around: a
record that it gives away is in force, so the other desk's claim is refused, the other
desk finds that very record, and both end with it (`alike_hit`).

While a call holds its key the ledger's record changes, so nothing may be cached under
the key then.  A lookup in vain leaves it so, and it is what the `gone` of `Twins` says.
-/
import AtMostOnce.Proofs.Engine.Desk

namespace AtMostOnce.Engine

/-- The engine with a cache. -/
@[reducible] def withCache (e : Engine) : Engine := { e with caches := true }

/-- The engine without a cache. -/
@[reducible] def withoutCache (e : Engine) : Engine := { e with caches := false }

theorem replay_withCache {α : Type} (e : Engine) (enc : Encoding α) :
    e.withCache.replay enc = e.replay enc := rfl

theorem replay_withoutCache {α : Type} (e : Engine) (enc : Encoding α) :
    e.withoutCache.replay enc = e.replay enc := rfl

/-- Two desks with the same books, the first with a cache that agrees with them and holds nothing
under the keys that are gone. -/
structure Twins (gone : Key → Prop) (s : Books) (a b : Desk) : Prop where
  first : a.books = s
  second : b.books = s
  keyed : s.records.Keyed
  cached : ∀ r ∈ a.cache.records,
    r.status = .completed ∧ s.records.get? r.key = some r ∧ ¬ gone r.key

def nothing (_ : Key) : Prop := False

variable {v : Visit} {losing : Nat → Record → Bool} {β γ : Type} {gone : Key → Prop} {s : Books}
  {a b : Desk} {e : Engine} {k : Key} {r : Record} {enc : Encoding v.Result} {n : Nat}

/-- From twin desks the one dialogue at the one and the other dialogue at the other end alike, and
leave twins. -/
def Alike (v : Visit) (losing : Nat → Record → Bool) (gone : Key → Prop) (s : Books)
    (d d' : Action v.Result β) : Prop :=
  ∀ a b, Twins gone s a b → (v.on losing d a).1 = (v.on losing d' b).1 ∧
    ∃ s', Twins nothing s' (v.on losing d a).2 (v.on losing d' b).2

theorem Twins.forget (h : Twins gone s a b) : Twins nothing s a b where
  first := h.first
  second := h.second
  keyed := h.keyed
  cached r hr := ⟨(h.cached r hr).1, (h.cached r hr).2.1, id⟩

/-! ### Rules -/

theorem alike_done (x : β) : Alike v losing gone s (.done x) (.done x) :=
  fun _ _ h => ⟨rfl, s, h.forget⟩

theorem Alike.bind {d d' : Action v.Result β} {f f' : β → Action v.Result γ}
    (h : Alike v losing gone s d d')
    (hf : ∀ x s', Alike v losing nothing s' (f x) (f' x)) :
    Alike v losing gone s (d >>= f) (d' >>= f') := by
  intro a b hab
  obtain ⟨hx, s', hs'⟩ := h a b hab
  rw [Visit.on_bind, Visit.on_bind, hx]
  exact hf _ s' _ _ hs'

/-- Both ask the same, and the ledger changes at most what is gone. -/
theorem alike_ask {q : Request} {next next' : Answer v.Result q → Action v.Result β}
    (hq : q.isAside = false)
    (kept : ∀ k, ¬ gone k → (v.tell s q).2.records.get? k = s.records.get? k)
    (h : Alike v losing gone (v.tell s q).2 (next (v.tell s q).1) (next' (v.tell s q).1)) :
    Alike v losing gone s (.ask q next) (.ask q next') := by
  intro a b hab
  obtain ⟨ha, hbooks, hcache⟩ := Visit.answer_eq v losing hq a
  obtain ⟨hb, hbooks', -⟩ := Visit.answer_eq v losing hq b
  rw [hab.first] at ha hbooks
  rw [hab.second] at hb hbooks'
  rw [Visit.on_ask, Visit.on_ask, ha, hb]
  refine h _ _ ⟨hbooks, hbooks', ?_, fun r hr => ?_⟩
  · cases q with
    | ledger q => exact hab.keyed.answer s.now q
    | _ => exact hab.keyed
  · obtain ⟨hst, hstored, hgone⟩ := hab.cached r (hcache r hr)
    exact ⟨hst, by rw [kept _ hgone, hstored], hgone⟩

/-- The first one asks what leaves the books as they are. -/
theorem alike_first {q : Request} {next : Answer v.Result q → Action v.Result β}
    {d' : Action v.Result β} (hq : q.isAside = false) (same : (v.tell s q).2 = s)
    (h : Alike v losing gone s (next (v.tell s q).1) d') :
    Alike v losing gone s (.ask q next) d' := by
  intro a b hab
  obtain ⟨ha, hbooks, hcache⟩ := Visit.answer_eq v losing hq a
  rw [hab.first] at ha hbooks
  rw [Visit.on_ask, ha]
  exact h _ _ ⟨hbooks.trans same, hab.second, hab.keyed, fun r hr => hab.cached r (hcache r hr)⟩

/-- The second one asks what leaves the books as they are. -/
theorem alike_second {q : Request} {next : Answer v.Result q → Action v.Result β}
    {d : Action v.Result β} (hq : q.isAside = false) (same : (v.tell s q).2 = s)
    (h : Alike v losing gone s d (next (v.tell s q).1)) :
    Alike v losing gone s d (.ask q next) := by
  intro a b hab
  obtain ⟨hb, hbooks, -⟩ := Visit.answer_eq v losing hq b
  rw [hab.second] at hb hbooks
  rw [Visit.on_ask, hb]
  exact h _ _ ⟨hab.first, hbooks.trans same, hab.keyed, hab.cached⟩

section

variable {f f' : Unit → Action v.Result β}

theorem alike_note {event : Event} (h : Alike v losing gone s (f ()) (f' ())) :
    Alike v losing gone s (note event >>= f) (note event >>= f') :=
  alike_ask rfl (fun _ _ => rfl) h

theorem alike_reached {stage : Stage} (h : Alike v losing gone s (f ()) (f' ())) :
    Alike v losing gone s (reached stage n >>= f) (reached stage n >>= f') := alike_note h

theorem alike_now {f f' : Millis → Action v.Result β}
    (h : Alike v losing gone s (f s.now) (f' s.now)) :
    Alike v losing gone s (now >>= f) (now >>= f') :=
  alike_ask rfl (fun _ _ => rfl) h

theorem alike_start
    (h : Alike v losing gone { s with starts := s.starts + 1 } (f ()) (f' ())) :
    Alike v losing gone s (Dialogue.query .start >>= f) (Dialogue.query .start >>= f') :=
  alike_ask rfl (fun _ _ => rfl) h

theorem alike_finish {f f' : Except Failure v.Result → Action v.Result β}
    (h : Alike v losing gone { s with now := v.departure } (f v.outcome) (f' v.outcome)) :
    Alike v losing gone s (Dialogue.query .finish >>= f) (Dialogue.query .finish >>= f') :=
  alike_ask rfl (fun _ _ => rfl) h

/-- The answer of the ledger is known, and it changes at most what is gone. -/
theorem alike_ledger {q : Ledger.Request} {answer : q.Answer} {records : Ledger.Memory}
    {f f' : q.Answer → Action v.Result β}
    (hq : Ledger.Memory.answer s.now q s.records = (answer, records))
    (kept : ∀ k, ¬ gone k → records.get? k = s.records.get? k)
    (h : Alike v losing gone { s with records := records } (f answer) (f' answer)) :
    Alike v losing gone s (ledger q >>= f) (ledger q >>= f') := by
  have htell : v.tell s (.ledger q) = (answer, { s with records := records }) := by
    rw [Visit.tell, hq]
  refine alike_ask (q := .ledger q) rfl ?_ ?_
  · rw [htell]
    exact kept
  · rw [htell]
    exact h

/-! ### What is about the cache -/

/-- What is kept stands in the ledger. -/
theorem alike_keep (hr : s.records.get? r.key = some r)
    (h : Alike v losing nothing s (f ()) (f' ())) :
    Alike v losing gone s (e.withCache.keep r >>= f) (e.withoutCache.keep r >>= f') := by
  intro a b hab
  refine h _ _ ⟨hab.first, hab.second, hab.keyed, fun r' hr' => ?_⟩
  rcases Cache.mem_put (Cache.mem_lose hr') with ⟨rfl, hst⟩ | hr'
  · exact ⟨hst, hr, id⟩
  · obtain ⟨hst, hstored, -⟩ := hab.cached r' hr'
    exact ⟨hst, hstored, id⟩

/-- A removal takes the record out of the ledger and out of the cache. -/
theorem alike_remove {f f' : Except Error Unit → Action v.Result β}
    (h : ∀ s', Alike v losing nothing s' (f (.ok ())) (f' (.ok ()))) :
    Alike v losing gone s (e.withCache.remove k >>= f) (e.withoutCache.remove k >>= f') := by
  intro a b hab
  have hbooks : (v.answer losing (.ledger (.remove k)) a).2.books =
      { s with records := Assoc.erase s.records k } := by
    rw [← hab.first]
    rfl
  have hbooks' : (v.answer losing (.ledger (.remove k)) b).2.books =
      { s with records := Assoc.erase s.records k } := by
    rw [← hab.second]
    rfl
  refine h _ (v.answer losing (.forget k) (v.answer losing (.ledger (.remove k)) a).2).2 _
    ⟨hbooks, hbooks', hab.keyed.erase k, fun r hr => ?_⟩
  have hmem := Cache.mem_lose hr
  obtain ⟨hst, hstored, -⟩ := hab.cached r (Cache.mem_lose (Cache.mem_erase hmem))
  refine ⟨hst, ?_, id⟩
  rw [← hstored]
  exact (Assoc.get?_erase _ _ _).trans (if_neg (Ne.symm (Cache.key_of_mem_erase hmem)))

/-- The cache has nothing under the key, or a record that the ledger has too. -/
theorem alike_cached {f f' : Option Record → Action v.Result β}
    (miss : Alike v losing (· = k) s (f none) (f' none))
    (hit : ∀ r, s.records.get? k = some r → r.status = .completed →
      r.isExpired (secondsOf s.now) = false → Alike v losing nothing s (f (some r)) (f' none)) :
    Alike v losing nothing s (e.withCache.cached k >>= f) (e.withoutCache.cached k >>= f') := by
  intro a b hab
  show (v.on losing (.ask (.cached k) f) a).1 = (v.on losing (f' none) b).1 ∧ ∃ s', Twins nothing s'
    (v.on losing (.ask (.cached k) f) a).2 (v.on losing (f' none) b).2
  have hnow : a.site.now = s.now := congrArg Books.now hab.first
  have hanswer : (v.answer losing (.cached k) a).1 = (a.cache.get (secondsOf s.now) k).1 := by
    rw [← hnow]
    rfl
  have hcache : ∀ r ∈ (v.answer losing (.cached k) a).2.cache.records,
      r ∈ (a.cache.get (secondsOf s.now) k).2.records := by
    intro r hr
    rw [← hnow]
    exact Cache.mem_lose hr
  rw [Visit.on_ask, hanswer]
  cases hget : (a.cache.get (secondsOf s.now) k).1 with
  | none =>
    refine miss _ _ ⟨hab.first, hab.second, hab.keyed, fun r hr => ?_⟩
    have hmem := hcache r hr
    obtain ⟨hst, hstored, -⟩ := hab.cached r (Cache.mem_get hmem)
    exact ⟨hst, hstored, Cache.key_of_get_none hget hmem⟩
  | some r =>
    obtain ⟨hmem, rfl⟩ := Cache.get_some hget
    obtain ⟨hst, hstored, -⟩ := hab.cached r hmem
    refine hit r hstored hst (Cache.get_unexpired hget) _ _
      ⟨hab.first, hab.second, hab.keyed, fun r' hr' => ?_⟩
    exact hab.cached r' (Cache.mem_get (hcache r' hr'))

end

/-! ### One attempt -/

theorem alike_deriveKey {payload : Json.Value} {f f' : Except Error Key → Action v.Result β}
    (h : Alike v losing gone s (f (e.rule.derive payload)) (f' (e.rule.derive payload))) :
    Alike v losing gone s (e.withCache.deriveKey payload >>= f)
      (e.withoutCache.deriveKey payload >>= f') := by
  rw [deriveKey, deriveKey]
  by_cases hw : e.rule.warns payload = true
  · rw [if_pos hw]
    exact alike_note h
  · rw [if_neg hw]
    exact h

theorem alike_checkPayload {digest : String} {f f' : Except Error Unit → Action v.Result β}
    (h : Alike v losing gone s (f (e.check.check r digest)) (f' (e.check.check r digest))) :
    Alike v losing gone s (e.withCache.checkPayload r digest >>= f)
      (e.withoutCache.checkPayload r digest >>= f') := by
  rw [checkPayload, checkPayload]
  by_cases ha : (!e.check.accepts r digest) = true
  · rw [if_pos ha]
    exact alike_note h
  · rw [if_neg ha]
    exact h

theorem alike_expiry {f f' : Seconds → Action v.Result β}
    (h : ∀ expiry, Alike v losing gone s (f expiry) (f' expiry)) :
    Alike v losing gone s (e.withCache.expiry >>= f) (e.withoutCache.expiry >>= f') :=
  alike_now (h _)

theorem alike_claimFor {digest : String} {remaining : Option Nat}
    {f f' : Record → Action v.Result β}
    (h : ∀ r, r.key = k → Alike v losing gone s (f r) (f' r)) :
    Alike v losing gone s (e.withCache.claimFor k digest remaining >>= f)
      (e.withoutCache.claimFor k digest remaining >>= f') :=
  alike_now (alike_now (h _ rfl))

/-- A found record is kept as it stands. -/
theorem alike_settleWith {context : EncodingContext} (hr : s.records.get? k = some r) :
    Alike v losing gone s (e.withCache.settleWith enc context n k r)
      (e.withoutCache.settleWith enc context n k r) := by
  intro a b hab
  have hkey : r.key = k := hab.keyed k r hr
  revert a b
  show Alike v losing gone s _ _
  unfold settleWith
  refine alike_now ?_
  cases r.statusAt (secondsOf s.now) with
  | expired => exact alike_done _
  | inProgress =>
    refine alike_now ?_
    by_cases hd : r.isOverdue s.now = true
    · simp only [if_pos hd]
      exact alike_done _
    · simp only [if_neg hd]
      exact alike_done _
  | completed =>
    refine alike_keep (by rw [hkey]; exact hr) (alike_reached ?_)
    rw [replay_withCache, replay_withoutCache]
    cases e.replay enc context r with
    | ok x => exact alike_reached (alike_done _)
    | error err => exact alike_done _

theorem alike_resolveConflict {context : EncodingContext} {digest : String}
    (hr : s.records.get? k = some r) :
    Alike v losing gone s (e.withCache.resolveConflict enc context n k digest)
      (e.withoutCache.resolveConflict enc context n k digest) := by
  have hfound : Ledger.Memory.answer s.now (.find k) s.records = (.ok r, s.records) := by
    rw [Ledger.Memory.answer, hr]
  refine alike_ledger hfound (fun _ _ => rfl) (alike_checkPayload ?_)
  cases e.check.check r digest with
  | error err => exact alike_done _
  | ok _ => exact alike_settleWith hr

theorem alike_failWith {f : Failure} :
    Alike v losing gone s (e.withCache.failWith n k f) (e.withoutCache.failWith n k f) := by
  rw [failWith, failWith]
  by_cases hb : e.settings.rollsBack f = true
  · rw [if_pos hb, if_pos hb]
    exact alike_remove fun s' => alike_reached (alike_done _)
  · rw [if_neg hb, if_neg hb]
    exact alike_reached (alike_done _)

/-- What is completed stands in the ledger when it is kept. -/
theorem alike_finishWith {context : EncodingContext} {claimed : Record} {x : v.Result} :
    Alike v losing (· = claimed.key) s (e.withCache.finishWith enc context n claimed x)
      (e.withoutCache.finishWith enc context n claimed x) := by
  unfold finishWith
  cases enc.store context x with
  | error err => exact alike_done _
  | ok data =>
    refine alike_expiry fun expiry => alike_ledger rfl (fun k hk => ?_) ?_
    · exact (Assoc.get?_insert _ _ _ _).trans (if_neg (Ne.symm hk))
    · refine alike_keep ((Assoc.get?_insert _ _ _ _).trans (if_pos rfl)) ?_
      exact alike_reached (alike_done _)

theorem alike_callFunction {context : EncodingContext} {claimed : Record} :
    Alike v losing (· = claimed.key) s (e.withCache.callFunction enc context n claimed)
      (e.withoutCache.callFunction enc context n claimed) := by
  refine alike_reached (alike_start (alike_finish ?_))
  cases v.outcome with
  | ok x => exact alike_finishWith
  | error f => exact alike_failWith

/-- A claim that the ledger refuses leads to the record in the way. -/
theorem alike_claim {context : EncodingContext} {digest : String} {remaining : Option Nat}
    {started : Bool} :
    Alike v losing (· = k) s (e.withCache.claim enc context n k digest remaining started)
      (e.withoutCache.claim enc context n k digest remaining started) := by
  refine alike_claimFor fun r hr => alike_reached ?_
  subst hr
  by_cases hfree : s.records.isFree r.key s.now = true
  · have hgranted : Ledger.Memory.answer s.now (.claim r) s.records =
        (.ok .created, s.records.put r) := by
      rw [Ledger.Memory.answer, if_pos hfree]
    refine alike_ledger hgranted (fun k hk => ?_) ?_
    · exact (Assoc.get?_insert _ _ _ _).trans (if_neg (Ne.symm hk))
    · cases started with
      | true => exact alike_done _
      | false => exact alike_callFunction.bind fun _ _ => alike_done _
  · have hrefused : Ledger.Memory.answer s.now (.claim r) s.records =
        (.ok .conflict, s.records) := by
      rw [Ledger.Memory.answer, if_neg hfree]
    obtain ⟨old, hold⟩ : ∃ old, s.records.get? r.key = some old := by
      cases hold : s.records.get? r.key with
      | none =>
        rw [Ledger.Memory.isFree, hold] at hfree
        exact absurd rfl hfree
      | some old => exact ⟨old, rfl⟩
    refine alike_ledger hrefused (fun _ _ => rfl) ?_
    refine (alike_resolveConflict hold).bind fun result _ => ?_
    cases result with
    | ok x => exact alike_done _
    | error err => exact alike_reached (alike_done _)

/-! ### A record from the cache -/

theorem checkPayload_ok {α : Type} {digest : String} (h : e.check.accepts r digest = true) :
    (e.checkPayload r digest : Action α _) = .done (.ok ()) := by
  simp [checkPayload, PayloadCheck.check, h]

theorem checkPayload_error {α : Type} {digest : String} (h : e.check.accepts r digest = false) :
    (e.checkPayload r digest : Action α _) = note (.warning .payloadMismatch) >>= fun _ =>
      .done (.error (.payloadValidation r.key)) := by
  simp [checkPayload, PayloadCheck.check, h]

theorem statusAt_eq {t : Seconds} (h : r.isExpired t = false) : r.statusAt t = r.status := by
  rw [Record.statusAt, h]
  rfl

/-- A completed record in force, found in the cache at the one desk, is in the way of the claim at
the other desk, and both end with it. -/
theorem alike_hit {context : EncodingContext} {digest : String} {remaining : Option Nat}
    {started : Bool} (hr : s.records.get? k = some r) (hst : r.status = .completed)
    (hforce : r.isExpired (secondsOf s.now) = false) :
    Alike v losing gone s
      (e.withCache.replayCached enc context n digest r >>= fun result => .done (result, started))
      (e.withoutCache.claim enc context n k digest remaining started) := by
  have hblocks : s.records.isFree k s.now = false := by
    rw [Ledger.Memory.isFree, hr]
    show r.isReplaceable s.now = false
    rw [Record.isReplaceable, hforce, hst]
    rfl
  have hclaim : ∀ claimed : Record, claimed.key = k →
      v.tell s (.ledger (.claim claimed)) = (.ok .conflict, s) := by
    rintro claimed rfl
    simp only [Visit.tell, Ledger.Memory.answer, hblocks, Bool.false_eq_true, if_false]
  have hfind : v.tell s (.ledger (.find k)) = (.ok r, s) := by
    simp only [Visit.tell, Ledger.Memory.answer, hr]
  -- the other desk asks for the time twice, notes its stage, claims, and finds the record
  refine alike_second (q := .now) rfl rfl (alike_second (q := .now) rfl rfl ?_)
  refine alike_second (q := .note _) rfl rfl (alike_second (q := .ledger (.claim _)) rfl ?_ ?_)
  · rw [hclaim _ rfl]
  rw [hclaim _ rfl]
  refine alike_second (q := .ledger (.find k)) rfl (by rw [hfind]) ?_
  rw [hfind]
  show Alike v losing gone s _ ((e.withoutCache.checkPayload r digest >>= _) >>= _)
  rw [replayCached]
  cases ha : e.check.accepts r digest with
  | false =>
    rw [checkPayload_error (e := e.withCache) ha, checkPayload_error (e := e.withoutCache) ha]
    refine alike_first (q := .note _) rfl rfl (alike_second (q := .note _) rfl rfl ?_)
    exact alike_second (q := .note _) rfl rfl (alike_done _)
  | true =>
    rw [checkPayload_ok (e := e.withCache) ha, checkPayload_ok (e := e.withoutCache) ha]
    refine alike_first (q := .note _) rfl rfl (alike_first (q := .note _) rfl rfl ?_)
    show Alike v losing gone s _ (e.withoutCache.settleWith enc context n k r >>= _)
    rw [settleWith]
    refine alike_second (q := .now) rfl rfl ?_
    simp only [Visit.tell, Dialogue.bind, statusAt_eq hforce, hst]
    refine alike_second (q := .note _) rfl rfl ?_
    rw [replay_withCache, replay_withoutCache]
    cases e.replay enc context r with
    | ok x => exact alike_second (q := .note _) rfl rfl (alike_done _)
    | error err => exact alike_second (q := .note _) rfl rfl (alike_done _)

theorem alike_attempt {payload : Json.Value} {remaining : Option Nat} {started : Bool} :
    Alike v losing nothing s (e.withCache.attempt enc payload remaining n started)
      (e.withoutCache.attempt enc payload remaining n started) := by
  unfold attempt
  refine alike_deriveKey ?_
  cases e.rule.derive payload with
  | error err => exact alike_done _
  | ok k =>
    refine alike_reached (alike_cached alike_claim fun r hr hst hforce => ?_)
    exact alike_hit hr hst hforce

/-! ### Whole calls -/

theorem alike_attempts {payload : Json.Value} {remaining : Option Nat} (retries : Nat) :
    ∀ (s : Books) (n : Nat) (started : Bool), Alike v losing nothing s
      (e.withCache.attempts enc payload remaining retries n started)
      (e.withoutCache.attempts enc payload remaining retries n started) := by
  induction retries with
  | zero =>
    intro s n started
    exact alike_attempt.bind fun _ _ => alike_done _
  | succ retries ih =>
    intro s n started
    refine alike_attempt.bind fun (result, started) s' => ?_
    cases result with
    | ok x => exact alike_done _
    | error err =>
      by_cases hr : err.isRetryable = true
      · simp only [if_pos hr]
        exact alike_note (ih s' (n + 1) started)
      · simp only [if_neg hr]
        exact alike_done _

theorem alike_run {payload : Payload} {remaining : Option Nat} :
    Alike v losing nothing s (e.withCache.run enc payload remaining)
      (e.withoutCache.run enc payload remaining) := by
  rw [run.eq_def, run.eq_def]
  by_cases hdis : e.settings.disabled = true
  · rw [if_pos hdis, if_pos hdis]
    refine alike_start ?_
    refine alike_finish ?_
    cases v.outcome with
    | ok x => exact alike_done _
    | error f => exact alike_done _
  · rw [if_neg hdis, if_neg hdis]
    cases payload with
    | error reason => exact alike_done _
    | ok value => exact alike_attempts _ s 0 false

theorem alike_delete {payload : Payload} :
    Alike (β := Except Error Key) v losing nothing s (e.withCache.delete payload)
      (e.withoutCache.delete payload) := by
  cases payload with
  | error reason => exact alike_done _
  | ok value =>
    refine alike_deriveKey ?_
    cases e.rule.derive value with
    | error err => exact alike_done _
    | ok k => exact alike_remove fun _ => alike_done _

theorem alike_talk (v : Visit) : Alike v losing nothing s
    (⟨e.withCache, (), v.payload, v.task⟩ : Call Unit v.Result).talk
    (⟨e.withoutCache, (), v.payload, v.task⟩ : Call Unit v.Result).talk := by
  unfold Call.talk
  cases v.task with
  | run enc remaining => exact alike_run.bind fun _ _ => alike_done _
  | delete => exact alike_delete.bind fun _ _ => alike_done _

/-- Twin desks serve a call alike, and are twins after it. -/
theorem Twins.serve (h : Twins nothing s a b) (v : Visit) :
    (v.serve losing e.withCache a).1 = (v.serve losing e.withoutCache b).1 ∧
      ∃ s', Twins nothing s' (v.serve losing e.withCache a).2
        (v.serve losing e.withoutCache b).2 := by
  have hnow : Twins nothing { s with now := v.arrival, starts := 0 }
      { a with site := { a.site with now := v.arrival }, starts := 0 }
      { b with site := { b.site with now := v.arrival }, starts := 0 } := by
    refine ⟨?_, ?_, h.keyed, h.cached⟩
    · rw [← h.first]
      rfl
    · rw [← h.second]
      rfl
  exact alike_talk v _ _ hnow

theorem Twins.after (losing : Nat → Record → Bool) (e : Engine) (h : Twins nothing s a b)
    (visits : List Visit) :
    ∃ s', Twins nothing s' (a.after losing e.withCache visits)
      (b.after losing e.withoutCache visits) := by
  induction visits generalizing s a b with
  | nil => exact ⟨s, h⟩
  | cons v visits ih =>
    obtain ⟨-, s', hs'⟩ := h.serve v
    exact ih hs'

theorem twins_fresh (records : List Record) (capacity : Nat) :
    Twins nothing ⟨0, .ofRecords records, 0⟩ (Desk.fresh records capacity)
      (Desk.fresh records capacity) where
  first := rfl
  second := rfl
  keyed := Ledger.Memory.keyed_ofRecords records
  cached _ hr := nomatch hr

/-- **After any calls, the next one ends with a cache as it does without one, starts its function as
often, and leaves the same records, whatever the cache has room for and whatever it loses.** -/
theorem cache_transparent (e : Engine) (losing : Nat → Record → Bool) (records : List Record)
    (capacity : Nat) (visits : List Visit) (v : Visit) :
    let kept := (Desk.fresh records capacity).after losing e.withCache visits
    let plain := (Desk.fresh records capacity).after losing e.withoutCache visits
    (v.serve losing e.withCache kept).1 = (v.serve losing e.withoutCache plain).1 ∧
      (v.serve losing e.withCache kept).2.starts = (v.serve losing e.withoutCache plain).2.starts ∧
      (v.serve losing e.withCache kept).2.site.records =
        (v.serve losing e.withoutCache plain).2.site.records := by
  intro kept plain
  obtain ⟨s, hs⟩ := (twins_fresh records capacity).after losing e visits
  obtain ⟨hend, s', hs'⟩ := hs.serve v
  have hbooks := hs'.first.trans hs'.second.symm
  exact ⟨hend, congrArg Books.starts hbooks, congrArg Books.records hbooks⟩

end AtMostOnce.Engine
