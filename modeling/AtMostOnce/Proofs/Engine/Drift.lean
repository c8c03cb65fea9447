/-
Payloads that have drifted.

A key that is used again must come with the same payload.  If the record that holds the key
has another digest than that of the payload, the run of the key is refused, before the status
of the record is looked at and without another try (`drift_refused`).  It makes no difference
which ledger the record is found in, or whether it is found in the cache.
-/
import AtMostOnce.Proofs.Engine.Guard
import AtMostOnce.Proofs.Engine.Provenance

namespace AtMostOnce

namespace Cache

/-- A record that is not lost is still found. -/
theorem find?_lose {c : Cache} {k : Key} {r : Record} {losing : Record → Bool}
    (h : c.find? k = some r) (hr : losing r = false) : (c.lose losing).find? k = some r := by
  unfold find? at h ⊢
  rw [lose, List.find?_filter]
  obtain ⟨hkey, before, after, hrecords, hbefore⟩ := List.find?_eq_some_iff_append.mp h
  refine List.find?_eq_some_iff_append.mpr ⟨by simp [hr, hkey], before, after, hrecords, ?_⟩
  intro x hx
  simp [hbefore x hx]

theorem get_of_find? {c : Cache} {now : Seconds} {k : Key} {r : Record} (h : c.find? k = some r)
    (hr : r.isExpired now = false) : (c.get now k).1 = some r := by
  simp [get, h, hr]

end Cache

namespace Engine

variable {κ α : Type} [DecidableEq κ] {chance : Chance κ} {s s' : Office κ} {v : Errand κ} {k : Key}
  {c : Call κ α} {r : Record}

/-- The record has a digest, and that is not the digest of the call's payload. -/
def Call.Drifts (c : Call κ α) (r : Record) : Prop :=
  ∃ digest, r.payloadHash = some digest ∧ digest ≠ "" ∧ digest ≠ c.digest

omit [DecidableEq κ] in
theorem Call.Drifts.refused (h : c.Drifts r) (checks : c.engine.check.isEnabled = true)
    {payload : Json.Value} (hp : c.payload = .ok payload) :
    c.engine.check.accepts r (c.engine.check.compute payload) = false := by
  obtain ⟨digest, hdigest, hne, hdrifts⟩ := h
  rw [Call.digest, hp] at hdrifts
  have hcomputed := PayloadCheck.compute_isEmpty checks payload
  simp [PayloadCheck.accepts, PayloadCheck.agrees, checks, hdigest, hne, hcomputed, hdrifts]

/-- The run is refused at once: it has one attempt, its function is not started, and what is found
under the key stays. -/
structure Errand.Refused (v : Errand κ) (chance : Chance κ) (s : Office κ) (k : Key) : Prop where
  result : (v.serve chance s).1 = .returned (.error (.payloadValidation k))
  once : .retries ∉ v.account chance s
  unstarted : .starts ∉ v.account chance s
  started : (v.serve chance s).2.started = s.started
  shows : s.store.Shows (v.serve chance s).2.store s.now k

/-- A run that gets none but records that it refuses is refused by its first attempt. -/
theorem Running.refused {e : Engine} {enc : Encoding α} {payload : Json.Value} {retries : Nat}
    {started : Bool} {l : List (Act α)} {result : Except Error α} {good held : Record → Prop}
    {last : Millis} (h : Running e enc payload retries started l result)
    (guarded : ∀ x ∈ l, x.Guarded good held last) (hgood : ∀ r, held r → good r)
    (refuses : ∀ r, good r → r.key = k ∧ e.check.accepts r (e.check.compute payload) = false)
    (hk : e.rule.derive payload = .ok k) :
    result = .error (.payloadValidation k) ∧ .retries ∉ l := by
  have first : ∀ {l result started'}, Attempting e enc payload started l (result, started') →
      (∀ x ∈ l, x.Guarded good held last) →
        result = .error (.payloadValidation k) ∧ .retries ∉ l := by
    intro l result started' attempting guarded
    obtain ⟨r, hr, hends⟩ := attempting.of_guarded guarded hgood hk
    obtain ⟨hkey, hrefuses⟩ := refuses r hr
    simp only [hrefuses, Bool.false_eq_true, false_and, or_false, true_and] at hends
    rw [← hkey]
    exact ⟨hends.2, hends.1⟩
  cases h with
  | last attempting => exact first attempting guarded
  | again attempting retryable =>
    obtain ⟨hresult, -⟩ := first attempting fun x hx => guarded x (by simp [hx])
    cases hresult
    cases retryable

/-- No time passes in a call if none passes between its questions. -/
theorem Errand.now_still (sound : s.store.Sound) (still : ∀ n, chance.passes n = 0) :
    (v.serve chance s).2.now = s.now := by
  have keeps : v.Keeps s chance fun s' _ => s'.now = s.now := by
    refine ⟨rfl, ?_, ?_⟩
    · intro token q s' stop stop' _ _ h _
      rw [Errand.now_reply, h]
    · intro s' stop _ h
      simp [Office.pass, still, h]
  obtain ⟨-, -, -, hnow, -⟩ := Errand.served sound keeps
  exact hnow

variable {enc : Encoding v.Result} {left : Option Nat}

/-- A run is refused if the ledger has a record that has drifted. -/
theorem Errand.refused_by_ledger (sound : s.store.Sound) (still : ∀ n, chance.passes n = 0)
    (enabled : v.call.engine.settings.disabled = false)
    (checks : v.call.engine.check.isEnabled = true) (ht : v.call.task = .run enc left)
    (hk : v.call.key? = some k) (hfound : s.store.find? s.now k = .ok r)
    (stays : r.isReplaceable s.now = false) (drifts : v.call.Drifts r)
    (uncached : v.call.engine.caches = true → ∀ r' ∈ (s.caches v.call.cache).records,
      r'.key = k → r'.isExpired (secondsOf s.now) = true) :
    v.Refused chance s k := by
  obtain ⟨payload, hp, hderive⟩ := Call.key?_eq_some hk
  have hnow : (v.serve chance s).2.now = s.now := Errand.now_still sound still
  have holds : s.Holds k (fun r => r.key = k ∧ v.call.Drifts r) s.now := by
    intro t hle hge
    obtain rfl : s.now = t := Int.le_antisymm hle hge
    exact ⟨r, hfound, stays, Ledger.Store.key_of_find sound hfound, drifts⟩
  have hcache : s.Caches v.call k fun r => r.key = k ∧ v.call.Drifts r := by
    intro hcaches r' hr' hkey hforce
    rw [uncached hcaches r' hr' hkey] at hforce
    cases hforce
  obtain ⟨⟨stop, spared⟩, result, hresult, running⟩ :=
    Errand.guarded_run sound hcache (fun _ => id) holds (Int.le_of_eq hnow) enabled ht hp hk
  obtain ⟨hrefused, honce⟩ := running.refused spared.guarded (fun _ => id)
    (fun r hr => ⟨hr.1, hr.2.refused checks hp⟩) hderive
  refine ⟨hrefused ▸ hresult, honce, spared.guarded _, spared.started, ?_⟩
  exact hnow ▸ spared.guards.shows

/-! ### Records in the cache -/

/-- What holds at the stops of a run whose cache has a record of the key and does not lose it. -/
structure Errand.Finds (v : Errand κ) (s : Office κ) (k : Key) (r : Record) (s' : Office κ)
    (stop : Stop v.Result) (l : List (Act v.Result)) : Prop where
  store : s'.store = s.store
  started : s'.started = s.started
  now : s'.now = s.now
  stop : stop = .looking ∧ (s'.caches v.call.cache).find? k = some r ∨ stop = .found r
  guarded : ∀ x ∈ l, x.Guarded (· = r) (fun _ => False) s.now

omit [DecidableEq κ] in
theorem Errand.Finds.pass {stop : Stop v.Result} {l : List (Act v.Result)}
    (h : v.Finds s k r s' stop l) (still : ∀ n, chance.passes n = 0)
    (stays : ∀ n, chance.loses n v.call.cache r = false) :
    v.Finds s k r (s'.pass chance) stop l where
  store := h.store
  started := h.started
  now := by simp [Office.pass, still, h.now]
  stop := h.stop.imp_left fun ⟨hstop, hfind⟩ => ⟨hstop, Cache.find?_lose hfind (stays _)⟩
  guarded := h.guarded

theorem Errand.Finds.move {stop stop' : Stop v.Result} {l : List (Act v.Result)} {q : Request}
    {token : String} (h : v.Finds s k r s' stop l) (hcaches : v.call.engine.caches = true)
    (hforce : r.isExpired (secondsOf s.now) = false) (hk : v.call.key? = some k)
    (move : v.call.Move stop q (v.reply token s' q).1 stop') :
    v.Finds s k r (v.reply token s' q).2 stop'
      (l ++ (act? q (v.reply token s' q).1).toList) := by
  obtain ⟨hstore, hstarted, hnow, hstop, hl⟩ := h
  generalize ha : (v.reply token s' q).1 = a at move
  cases move with
  | @now _ t =>
    obtain rfl : s'.now = t := ha
    refine ⟨hstore, hstarted, hnow, hstop, guarded_append hl ?_⟩
    simp [act?, Act.Guarded, hnow]
  | note => exact ⟨hstore, hstarted, hnow, hstop, guarded_append hl guarded_note⟩
  | @found k' r' _ hk' =>
    obtain rfl : k = k' := Option.some.inj (hk.symm.trans hk')
    obtain ⟨-, hfind⟩ : _ ∧ _ := hstop.resolve_right (by simp)
    have hget := Cache.get_of_find? hfind (hnow ▸ hforce)
    obtain rfl : r = r' := Option.some.inj (hget.symm.trans ha)
    exact ⟨hstore, hstarted, hnow, .inr rfl, guarded_append hl (by simp [act?, Act.Guarded])⟩
  | @missed k' _ hk' =>
    obtain rfl : k = k' := Option.some.inj (hk.symm.trans hk')
    obtain ⟨-, hfind⟩ : _ ∧ _ := hstop.resolve_right (by simp)
    have hget := Cache.get_of_find? hfind (hnow ▸ hforce)
    cases hget.symm.trans ha
  | retry hgives =>
    obtain ⟨r', rfl⟩ | ⟨err, rfl⟩ := hgives <;> simp at hstop
  | granted _ hs => rcases hs with rfl | ⟨-, huncached⟩ <;> simp_all
  | denied _ hs => rcases hs with rfl | ⟨-, huncached⟩ <;> simp_all
  | _ => simp at hstop

/-- A run is refused if its cache has a record that has drifted. -/
theorem Errand.refused_by_cache (sound : s.store.Sound) (still : ∀ n, chance.passes n = 0)
    (enabled : v.call.engine.settings.disabled = false)
    (checks : v.call.engine.check.isEnabled = true) (ht : v.call.task = .run enc left)
    (hk : v.call.key? = some k) (hcaches : v.call.engine.caches = true)
    (hfind : (s.caches v.call.cache).find? k = some r)
    (hforce : r.isExpired (secondsOf s.now) = false) (drifts : v.call.Drifts r)
    (stays : ∀ n, chance.loses n v.call.cache r = false) :
    v.Refused chance s k := by
  obtain ⟨payload, hp, hderive⟩ := Call.key?_eq_some hk
  have begins : v.Finds s k r s v.call.departs [] :=
    ⟨rfl, rfl, rfl, .inl ⟨Call.departs_run ht enabled, hfind⟩, by simp⟩
  obtain ⟨⟨stop, finds⟩, result, hresult, running⟩ := Errand.accounted (v.Finds s k r) sound
    (tells_talk ht hp enabled) begins
    (fun token q s' stop stop' l _ h move => h.move hcaches hforce hk move)
    fun s' stop l h => h.pass still stays
  obtain ⟨hrefused, honce⟩ := running.refused finds.guarded (fun _ => False.elim)
    (by
      rintro r' rfl
      exact ⟨(Cache.find?_some hfind).2, drifts.refused checks hp⟩) hderive
  refine ⟨hrefused ▸ hresult, honce, finds.guarded _, finds.started, ?_⟩
  intro t _
  rw [finds.store]

/-! ### Payloads that have drifted -/

/-- **A payload that has drifted is refused at once.**  A record of the key has another digest than
that of the payload; it is in force in the cache, or it is in the ledger and may not be replaced.
Then the run of the key is refused by its first attempt, whatever the status of the record is; its
function is not started, and what is found under the key stays. -/
theorem drift_refused (sound : s.store.Sound) (still : ∀ n, chance.passes n = 0)
    (enabled : v.call.engine.settings.disabled = false)
    (checks : v.call.engine.check.isEnabled = true) (ht : v.call.task = .run enc left)
    (hk : v.call.key? = some k) (drifts : v.call.Drifts r)
    (found : s.store.find? s.now k = .ok r ∧ r.isReplaceable s.now = false ∧
        (v.call.engine.caches = true → ∀ r' ∈ (s.caches v.call.cache).records,
          r'.key = k → r'.isExpired (secondsOf s.now) = true) ∨
      v.call.engine.caches = true ∧ (s.caches v.call.cache).find? k = some r ∧
        r.isExpired (secondsOf s.now) = false ∧ ∀ n, chance.loses n v.call.cache r = false) :
    v.Refused chance s k := by
  rcases found with ⟨hfound, stays, uncached⟩ | ⟨hcaches, hfind, hforce, stays⟩
  · exact Errand.refused_by_ledger sound still enabled checks ht hk hfound stays drifts uncached
  · exact Errand.refused_by_cache sound still enabled checks ht hk hcaches hfind hforce drifts stays

/-! ### An order for another payload -/

/-- A run for the order by an engine that checks the payload. -/
def checked : Errand Unit := ⟨String, Interleaved.patrons false, .ok "again"⟩

/-- What a call for another payload has claimed, and what it has completed. -/
def pendingOther : Record := ⟨order, .inProgress, some 3600, none, none, some "other"⟩

def receiptOther : Record := ⟨order, .completed, some 3600, none, some "charged", some "other"⟩

/-- The record is in progress in a ledger over a server of fields. -/
def claimedOther : Office Unit :=
  ⟨0, ((Ledger.Store.fields .initial .empty).answer 0 "token" (.claim pendingOther)).2,
    fun _ => .empty 4, 0, []⟩

/-- The record is completed and in the cache, and it is gone from the ledger. -/
def cachedOther : Office Unit := ⟨0, .memory [], fun _ => ⟨4, [receiptOther]⟩, 0, []⟩

/-- The order is refused in both cases. -/
theorem checked_refused :
    checked.Refused quiet claimedOther order ∧ checked.Refused quiet cachedOther order := by
  have blank : Ledger.Store.Blank (.fields .initial .empty) := rfl
  have hkey : checked.call.key? = some order := by decide +kernel
  have differs : "other" ≠ checked.call.digest := by decide +kernel
  have hfound : claimedOther.store.find? 0 order = .ok pendingOther := by decide +kernel
  have hfind : (cachedOther.caches ()).find? order = some receiptOther := by decide +kernel
  refine ⟨drift_refused (blank.sound.answer 0 "token" _) (fun _ => rfl) rfl rfl rfl hkey
    ⟨"other", rfl, by simp, differs⟩ (.inl ⟨hfound, rfl, ?_⟩), ?_⟩
  · intro _ r hr
    cases hr
  · exact drift_refused (v := checked) (s := cachedOther) nofun (fun _ => rfl) rfl rfl rfl hkey
      ⟨"other", rfl, by simp, differs⟩ (.inr ⟨rfl, hfind, rfl, fun _ => rfl⟩)

end Engine

end AtMostOnce
