/-
Calls while a record holds their key.

A record that is found under the key and may not be replaced is safe from every call but a
deletion of the key: a run of the key is refused, and a call about another key does not come
near it (`Office.Guards.serve`, `Office.Guards.after`).  What is supposed of the record is
supposed until the call has ended, for time passes while it is served.

Of a run of the key there is more to say.  Its account tells of nothing but refused claims
and of records that were found, in the cache or in the ledger (`Errand.guarded_run`), so how
the run ends is read off the account.
-/
import AtMostOnce.Proofs.Engine.Account
import AtMostOnce.Proofs.Engine.Office
import AtMostOnce.Proofs.Held

namespace AtMostOnce.Engine

open Dialogue

variable {κ α : Type} [DecidableEq κ] {chance : Chance κ} {s s' : Office κ} {v : Errand κ} {k : Key}
  {c : Call κ α} {good held : Record → Prop} {last : Millis}

/-! ### Records that are guarded -/

/-- Until then, a record that is held is found under the key and may not be replaced. -/
def Office.Holds (s : Office κ) (k : Key) (held : Record → Prop) (last : Millis) : Prop :=
  ∀ t, s.now ≤ t → t ≤ last →
    ∃ r, s.store.find? t k = .ok r ∧ r.isReplaceable t = false ∧ held r

/-- The cache of the call, if it has one, has good records of the key only. -/
def Office.Caches (s : Office κ) (c : Call κ α) (k : Key) (good : Record → Prop) : Prop :=
  c.engine.caches = true → ∀ r ∈ (s.caches c.cache).records, r.key = k →
    r.isExpired (secondsOf s.now) = false → good r

/-- What is found under the key is what was found before, and the cache of the call is good. -/
structure Office.Guards (s : Office κ) (c : Call κ α) (k : Key) (good : Record → Prop)
    (s' : Office κ) : Prop where
  now : s.now ≤ s'.now
  shows : s.store.Shows s'.store s'.now k
  caches : s'.Caches c k good

/-- What holds at the stops of a run of a key that is held: it is granted nothing. -/
def Stop.Barred (held : Record → Prop) : Stop α → Prop
  | .looking | .found _ | .missed | .denied | .apart => True
  | .met r => held r
  | _ => False

omit [DecidableEq κ] in
theorem Office.Guards.refl (h : s.Caches c k good) : s.Guards c k good s :=
  ⟨Int.le_refl _, fun _ _ => rfl, h⟩

omit [DecidableEq κ] in
/-- What is found while the record is guarded is what is held. -/
theorem Office.Guards.found (h : s.Guards c k good s') (holds : s.Holds k held last)
    (hle : s'.now ≤ last) :
    ∃ r, s'.store.find? s'.now k = .ok r ∧ r.isReplaceable s'.now = false ∧ held r := by
  rw [h.shows s'.now (Int.le_refl _)]
  exact holds s'.now h.now hle

omit [DecidableEq κ] in
/-- The guard goes on as time passes and caches lose records. -/
theorem Office.Guards.later {s'' : Office κ} (h : s.Guards c k good s') (hnow : s'.now ≤ s''.now)
    (hstore : s''.store = s'.store)
    (hcache : ∀ r ∈ (s''.caches c.cache).records, r ∈ (s'.caches c.cache).records) :
    s.Guards c k good s'' where
  now := Int.le_trans h.now hnow
  shows t ht := by
    rw [hstore]
    exact h.shows t (Int.le_trans hnow ht)
  caches hcaches r hr hkey hforce := by
    refine h.caches hcaches r (hcache r hr) hkey ?_
    rw [← Bool.not_eq_true] at hforce ⊢
    exact fun hover => hforce (Record.isExpired_later hover (secondsOf_le hnow))

omit [DecidableEq κ] in
theorem Office.Guards.pass (h : s.Guards c k good s') : s.Guards c k good (s'.pass chance) :=
  h.later (Office.now_pass chance s') rfl fun _ => Cache.mem_lose

omit [DecidableEq κ] in
theorem Office.Guards.wait (h : s.Guards c k good s') (millis : Nat) :
    s.Guards c k good (s'.wait millis) :=
  h.later (Int.le_add_of_nonneg_right (Int.natCast_nonneg _)) rfl fun _ => id

/-- A request leaves a record that is held as it is, unless it is one of those that a run is granted
or a deletion asks. -/
theorem Errand.shows_move {stop stop' : Stop v.Result} {q : Request} {token : String}
    (blocks : s.store.Blocks s.now k) (sound : s.store.Sound) (hk : Ledger.Fields.Derived k)
    (barred : v.call.key? = some k → stop.Barred held)
    (move : v.call.Move stop q (v.reply token s q).1 stop') :
    s.store.Shows (v.reply token s q).2.store s.now k := by
  cases q with
  | ledger q =>
    have hq := move.ledger_key
    by_cases hne : q.key = k
    · subst hne
      have hbarred := barred hq
      generalize ha : (v.reply token s (.ledger q)).1 = a at move
      cases move with
      | granted hclaims =>
        cases ha.symm.trans (blocks.claim sound token).1
      | denied hclaims => exact (blocks.claim sound token).2
      | met => exact Ledger.Store.shows_find sound
      | lost => exact Ledger.Store.shows_find sound
      | _ => exact hbarred.elim
    · exact Ledger.Store.shows_other sound hk (derived_of_key? hq) hne
  | _ => exact fun _ _ => rfl

/-- A run of a key that is held is granted nothing, and what it finds is what is held. -/
theorem Errand.barred_move {r : Record} {stop stop' : Stop v.Result} {q : Request} {token : String}
    (hfound : s.store.find? s.now k = .ok r) (stays : r.isReplaceable s.now = false)
    (hheld : held r) (sound : s.store.Sound) (hk : v.call.key? = some k)
    (barred : stop.Barred held) (move : v.call.Move stop q (v.reply token s q).1 stop') :
    stop'.Barred held := by
  have own : ∀ {k'}, v.call.key? = some k' → k = k' :=
    fun hk' => Option.some.inj (hk.symm.trans hk')
  have found := Ledger.Store.find_answered s.store s.now token k
  rw [hfound] at found
  generalize ha : (v.reply token s q).1 = a at move
  cases move with
  | now => exact barred
  | note => exact barred
  | keepMet => exact barred
  | granted hclaims =>
    obtain ⟨k', expiry, deadline, hk', rfl⟩ := hclaims
    obtain rfl := own hk'
    cases ha.symm.trans (Ledger.Store.Blocks.claim sound ⟨r, hfound, stays⟩ token).1
  | met hk' =>
    obtain rfl := own hk'
    cases found.symm.trans ha
    exact hheld
  | lost hk' =>
    obtain rfl := own hk'
    cases found.symm.trans ha
  | retry => trivial
  | found => trivial
  | missed => trivial
  | denied => trivial
  | startsApart => trivial
  | endsApart => trivial
  | _ => exact barred.elim

/-- **A record that is held stays so whatever a call asks, and a run of the key is granted
nothing.** -/
theorem Office.Guards.move {stop stop' : Stop v.Result} {q : Request} {token : String}
    (h : s.Guards c k good s') (hgood : ∀ r, held r → good r)
    (barred : v.call.key? = some k → stop.Barred held)
    (holds : s.Holds k held last) (hle : s'.now ≤ last) (sound : s'.store.Sound)
    (hk : Ledger.Fields.Derived k) (move : v.call.Move stop q (v.reply token s' q).1 stop') :
    s.Guards c k good (v.reply token s' q).2 ∧ (v.call.key? = some k → stop'.Barred held) := by
  obtain ⟨r, hfound, stays, hheld⟩ := h.found holds hle
  have hnow : (v.reply token s' q).2.now = s'.now := v.now_reply token s' q
  have hshows := Errand.shows_move ⟨r, hfound, stays⟩ sound hk barred move
  refine ⟨⟨hnow ▸ h.now, ?_, ?_⟩, ?_⟩
  · intro t ht
    rw [hnow] at ht
    exact (hshows t ht).trans (h.shows t ht)
  · intro hcaches r' hr' hkey hforce
    rw [hnow] at hforce
    rcases Errand.mem_caches_reply hr' with hmem | rfl
    · exact h.caches hcaches r' hmem hkey hforce
    · -- of the key's records, a run that is granted nothing keeps what it has met
      have hbarred := barred (hkey ▸ move.keep_key)
      cases move with
      | keepMet => exact hgood r' hbarred
      | keepCompleted => exact hbarred.elim
  · exact fun hown => Errand.barred_move hfound stays hheld sound hown (barred hown) move

/-! ### Whole calls -/

/-- **A record that is held stays so in every call but a deletion of its key.** -/
theorem Office.Guards.serve (h : s.Guards c k good s') (sound : s'.store.Sound)
    (hgood : ∀ r, held r → good r) (holds : s.Holds k held last)
    (hle : (v.serve chance s').2.now ≤ last) (hk : Ledger.Fields.Derived k)
    (spares : v.call.key? = some k → v.call.task ≠ .delete) :
    s.Guards c k good (v.serve chance s').2 := by
  have keeps : v.Keeps s' chance fun t stop =>
      t.now ≤ last → s.Guards c k good t ∧ (v.call.key? = some k → stop.Barred held) := by
    refine ⟨fun _ => ⟨h, fun hown => ?_⟩, ?_, ?_⟩
    · unfold Call.departs
      split
      · split <;> trivial
      · rename_i hdelete
        exact absurd hdelete (spares hown)
    · intro token q t stop stop' sound' _ kept move hlast
      rw [Errand.now_reply] at hlast
      obtain ⟨guards, barred⟩ := kept hlast
      exact guards.move hgood barred holds hlast sound' hk move
    · intro t stop _ kept hlast
      obtain ⟨guards, barred⟩ := kept (Int.le_trans (Office.now_pass chance t) hlast)
      exact ⟨guards.pass, barred⟩
  obtain ⟨-, -, stop, kept, -⟩ := Errand.served sound keeps
  exact (kept hle).1

theorem Office.now_after (sound : s.store.Sound) (chance : Chance κ)
    (history : List (Nat × Errand κ)) : s.now ≤ (s.after chance history).now := by
  refine (Office.after_keeps (fun s' => s.now ≤ s'.now) sound (Int.le_refl _) chance history
    ?_ ?_).2
  · intro s' millis _ h
    exact Int.le_trans h (Int.le_add_of_nonneg_right (Int.natCast_nonneg _))
  · intro x _ s' sound' h
    exact Int.le_trans h (Errand.now_serve sound')

/-- A record that is held stays so in any number of calls that do not delete its key. -/
theorem Office.Guards.after (h : s.Guards c k good s') (history : List (Nat × Errand κ))
    (sound : s'.store.Sound) (hgood : ∀ r, held r → good r) (holds : s.Holds k held last)
    (hle : (s'.after chance history).now ≤ last) (hk : Ledger.Fields.Derived k)
    (spare : ∀ x ∈ history, x.2.call.key? = some k → x.2.call.task ≠ .delete) :
    s.Guards c k good (s'.after chance history) := by
  induction history generalizing s' with
  | nil => exact h
  | cons x rest ih =>
    have sound' := Errand.sound_serve (s := s'.wait x.1) sound chance x.2
    refine ih ?_ sound' hle fun y hy => spare y (List.mem_cons_of_mem x hy)
    exact (h.wait x.1).serve sound hgood holds
      (Int.le_trans (Office.now_after sound' chance rest) hle) hk (spare x List.mem_cons_self)

/-! ### The account of a run -/

/-- The account of a call. -/
def Errand.account (v : Errand κ) (chance : Chance κ) (s : Office κ) : List (Act v.Result) :=
  acts (v.call.talk.tell (v.answer chance) s).1

/-- What every move and the passing of time keep of the account so far holds of the whole account,
and that belongs to the end of the call. -/
theorem Errand.accounted {post : List (Act v.Result) → Ending v.Result → Prop}
    (kept : Office κ → Stop v.Result → List (Act v.Result) → Prop) (sound : s.store.Sound)
    (tells : Tells post v.call.talk) (begins : kept s v.call.departs [])
    (move : ∀ token q (s' : Office κ) stop stop' l, s'.store.Sound → kept s' stop l →
      v.call.Move stop q (v.reply token s' q).1 stop' →
        kept (v.reply token s' q).2 stop' (l ++ (act? q (v.reply token s' q).1).toList))
    (pass : ∀ (s' : Office κ) stop l, kept s' stop l → kept (s'.pass chance) stop l) :
    (∃ stop, kept (v.serve chance s).2 stop (v.account chance s)) ∧
      post (v.account chance s) (v.serve chance s).1 := by
  have step : ∀ q (s' : Office κ) (p : Stop v.Result × List (Act v.Result)),
      s'.store.Sound ∧ kept s' p.1 p.2 → v.call.mayAsk p.1 q ∧ True →
        (Call.told q (v.answer chance q s').1 ∧ True) ∧ (v.answer chance q s').2.store.Sound ∧
          kept (v.answer chance q s').2 (p.1.after q (v.answer chance q s').1)
            (p.2 ++ (act? q (v.answer chance q s').1).toList) := by
    rintro q s' ⟨stop, l⟩ ⟨sound', h⟩ ⟨hq, -⟩
    have hsound := Errand.sound_reply (v := v) sound' (chance.token s'.asked) q
    have htold : Call.told q (v.reply (chance.token s'.asked) s' q).1 :=
      Errand.told_reply sound' _ q
    exact ⟨⟨htold, trivial⟩, hsound,
      pass _ _ _ (move _ q s' stop _ l sound' h (hq.move htold))⟩
  have told := ((talk_route v.call).both (tells [])).told
    (fun (s' : Office κ) p => s'.store.Sound ∧ kept s' p.1 p.2) ⟨sound, begins⟩ step
  rw [Protocol.both_phase, accounting_phase, Dialogue.tell_result] at told
  obtain ⟨⟨-, hkept⟩, -, l, haccount, hpost⟩ := told
  obtain rfl : v.account chance s = l := haccount
  exact ⟨⟨_, hkept⟩, hpost⟩

/-- What a run of a key that is held does, and what it is told. -/
def Act.Guarded (good held : Record → Prop) (last : Millis) : Act α → Prop
  | .reads t => t ≤ last
  | .looks found => ∀ r, found = some r → good r
  | .claims answer => answer = .ok .conflict
  | .finds answer => ∃ r, answer = .ok r ∧ held r
  | .comes _ | .retries => True
  | _ => False

omit [DecidableEq κ] in
/-- A note tells nothing that is not so. -/
theorem guarded_note {event : Event} :
    ∀ x ∈ act? (α := α) (.note event) (), x.Guarded good held last := by
  cases event with
  | reached stage n => simp [act?, Act.Guarded]
  | warning w => cases w <;> simp [act?, Act.Guarded]

omit [DecidableEq κ] in
theorem guarded_append {l : List (Act α)} {act : Option (Act α)}
    (hl : ∀ x ∈ l, x.Guarded good held last) (hact : ∀ x ∈ act, x.Guarded good held last) :
    ∀ x ∈ l ++ act.toList, x.Guarded good held last := by
  intro x hx
  rcases List.mem_append.mp hx with hx | hx
  · exact hl x hx
  · exact hact x (Option.mem_toList.mp hx)

/-- What holds at the stops of a run of a key that is held, with its account so far. -/
structure Errand.Spared (v : Errand κ) (s : Office κ) (k : Key) (good held : Record → Prop)
    (last : Millis) (s' : Office κ) (stop : Stop v.Result) (l : List (Act v.Result)) : Prop where
  guards : s.Guards v.call k good s'
  barred : stop.Barred held
  recorded : stop ≠ .apart
  started : s'.started = s.started
  guarded : ∀ x ∈ l, x.Guarded good held last

/-- A run of a key that is held is told nothing else, whatever it asks. -/
theorem Office.Guards.guarded {stop stop' : Stop v.Result} {q : Request} {token : String}
    (h : s.Guards v.call k good s') (hle : s'.now ≤ last) (barred : stop.Barred held)
    (barred' : stop'.Barred held) (recorded : stop ≠ .apart) (hk : v.call.key? = some k)
    (move : v.call.Move stop q (v.reply token s' q).1 stop') :
    (∀ x ∈ act? q (v.reply token s' q).1, x.Guarded good held last) ∧ stop' ≠ .apart ∧
      (v.reply token s' q).2.started = s'.started := by
  generalize ha : (v.reply token s' q).1 = a at move
  cases move with
  | @now _ t =>
    obtain rfl : s'.now = t := ha
    exact ⟨by simpa [act?, Act.Guarded] using hle, recorded, rfl⟩
  | note => exact ⟨guarded_note, recorded, rfl⟩
  | retry => exact ⟨guarded_note, by simp, rfl⟩
  | @found k' r hcaches hk' =>
    obtain rfl : k = k' := Option.some.inj (hk.symm.trans hk')
    obtain ⟨hmem, hkey⟩ := Cache.get_some ha
    have hgood := h.caches hcaches r hmem hkey (Cache.get_unexpired ha)
    exact ⟨by simpa [act?, Act.Guarded] using hgood, by simp, rfl⟩
  | missed => exact ⟨by simp [act?, Act.Guarded], by simp, rfl⟩
  | denied => exact ⟨by simp [act?, Act.Guarded], by simp, rfl⟩
  | met =>
    have hheld : held _ := barred'
    exact ⟨by simpa [act?, Act.Guarded] using hheld, by simp, rfl⟩
  | keepMet => exact ⟨by simp [act?], recorded, rfl⟩
  | granted => exact barred'.elim
  | lost => exact barred'.elim
  | startsApart => exact absurd rfl recorded
  | endsApart => exact absurd rfl recorded
  | _ => exact barred.elim

theorem Errand.Spared.move {stop stop' : Stop v.Result} {l : List (Act v.Result)} {q : Request}
    {token : String} (h : v.Spared s k good held last s' stop l) (hle : s'.now ≤ last)
    (hgood : ∀ r, held r → good r) (holds : s.Holds k held last) (sound : s'.store.Sound)
    (hk : v.call.key? = some k) (move : v.call.Move stop q (v.reply token s' q).1 stop') :
    v.Spared s k good held last (v.reply token s' q).2 stop'
      (l ++ (act? q (v.reply token s' q).1).toList) := by
  obtain ⟨guards, hbarred⟩ :=
    h.guards.move hgood (fun _ => h.barred) holds hle sound (derived_of_key? hk) move
  have barred := hbarred hk
  obtain ⟨hact, recorded, hstarted⟩ := h.guards.guarded hle h.barred barred h.recorded hk move
  exact ⟨guards, barred, recorded, hstarted.trans h.started, guarded_append h.guarded hact⟩

/-- **A run of a key that is held.**  It is told of nothing but refused claims and of records that
are good or held, it starts no function, and it leaves what is found under the key. -/
theorem Errand.guarded_run {enc : Encoding v.Result} {left : Option Nat} {payload : Json.Value}
    (sound : s.store.Sound) (hcache : s.Caches v.call k good) (hgood : ∀ r, held r → good r)
    (holds : s.Holds k held last) (hle : (v.serve chance s).2.now ≤ last)
    (enabled : v.call.engine.settings.disabled = false) (ht : v.call.task = .run enc left)
    (hp : v.call.payload = .ok payload) (hk : v.call.key? = some k) :
    (∃ stop, v.Spared s k good held last (v.serve chance s).2 stop (v.account chance s)) ∧
      ∃ result, (v.serve chance s).1 = .returned result ∧
        Running v.call.engine enc payload v.call.engine.settings.maxRetries false
          (v.account chance s) result := by
  have begins : v.Spared s k good held last s v.call.departs [] := by
    rw [Call.departs_run ht enabled]
    exact ⟨.refl hcache, trivial, by simp, rfl, by simp⟩
  obtain ⟨⟨stop, spared⟩, hresult⟩ := Errand.accounted
    (fun s' stop l => s'.now ≤ last → v.Spared s k good held last s' stop l)
    sound (tells_talk ht hp enabled) (fun _ => begins)
    (fun token q s' stop stop' l sound' h move hlast => by
      rw [Errand.now_reply] at hlast
      exact (h hlast).move hlast hgood holds sound' hk move)
    fun s' stop l h hlast => by
      have spared := h (Int.le_trans (Office.now_pass chance s') hlast)
      exact { spared with guards := spared.guards.pass }
  exact ⟨⟨stop, spared hle⟩, hresult⟩

/-! ### How such a run ends -/

section

variable {e : Engine} {enc : Encoding α} {payload : Json.Value} {digest : String}
  {started started' : Bool} {l : List (Act α)} {result : Except Error α}

/-- The look at the record in the way shows one that is held. -/
theorem Resolving.of_guarded (h : Resolving e enc k digest l result)
    (guarded : ∀ x ∈ l, x.Guarded good held last) :
    ∃ r, held r ∧
      (e.check.accepts r digest = false ∧ .retries ∉ l ∧
          result = .error (.payloadValidation r.key) ∨
        e.check.accepts r digest = true ∧
          ∃ more, Settling e enc k r more result ∧ ∀ x ∈ more, x.Guarded good held last) := by
  cases h with
  | lost =>
    obtain ⟨r, hr, -⟩ := guarded _ List.mem_cons_self
    cases hr
  | @refused r hrefused =>
    obtain ⟨_, hr, hheld⟩ := guarded _ List.mem_cons_self
    cases hr
    exact ⟨r, hheld, .inl ⟨hrefused, by simp, rfl⟩⟩
  | @settles r _ _ hacc settling =>
    obtain ⟨_, hr, hheld⟩ := guarded _ List.mem_cons_self
    cases hr
    exact ⟨r, hheld, .inr ⟨hacc, _, settling, fun x hx => guarded x (List.mem_cons_of_mem _ hx)⟩⟩

/-- A claim of a key that is held is refused. -/
theorem Claiming.of_guarded (h : Claiming e enc k digest started l (result, started'))
    (guarded : ∀ x ∈ l, x.Guarded good held last) :
    ∃ more after, l = .claims (.ok .conflict) :: more ++ after ∧ .retries ∉ after ∧
      Resolving e enc k digest more result := by
  generalize hp : (result, started') = p at h
  cases h with
  | fails => cases guarded _ List.mem_cons_self
  | spent => cases guarded _ List.mem_cons_self
  | calls => cases guarded _ List.mem_cons_self
  | replays resolving =>
    cases hp
    exact ⟨_, [], (List.append_nil _).symm, by simp, resolving⟩
  | meets resolving =>
    cases hp
    exact ⟨_, _, rfl, by simp, resolving⟩

/-- **An attempt at a key that is held ends with a record that is good or held**: it refuses the
record, or it replays it from the cache, or it settles with the one from the ledger. -/
theorem Attempting.of_guarded (h : Attempting e enc payload started l (result, started'))
    (guarded : ∀ x ∈ l, x.Guarded good held last) (hgood : ∀ r, held r → good r)
    (hk : e.rule.derive payload = .ok k) :
    ∃ r, good r ∧
      (e.check.accepts r (e.check.compute payload) = false ∧ .retries ∉ l ∧
          result = .error (.payloadValidation r.key) ∨
        e.check.accepts r (e.check.compute payload) = true ∧
          (result = e.replay enc ⟨k, e.functionName⟩ r ∨
            held r ∧ ∃ more, Settling e enc k r more result ∧
              ∀ x ∈ more, x.Guarded good held last)) := by
  generalize hp : (result, started') = p at h
  cases h with
  | keyless hnone => cases hnone.symm.trans hk
  | @refused _ r _ _ hrefused =>
    cases hp
    have hr : good r := guarded (.looks (some r)) (by simp) r rfl
    exact ⟨r, hr, .inl ⟨hrefused, by simp, rfl⟩⟩
  | @hits _ r hk' _ hacc =>
    cases hp
    obtain rfl := Except.ok.inj (hk.symm.trans hk')
    have hr : good r := guarded (.looks (some r)) (by simp) r rfl
    exact ⟨r, hr, .inr ⟨hacc, .inl rfl⟩⟩
  | claims hk' hlook claiming =>
    subst hp
    obtain rfl := Except.ok.inj (hk.symm.trans hk')
    obtain ⟨more, after, rfl, hafter, resolving⟩ :=
      claiming.of_guarded fun x hx => guarded x (by simp [hx])
    obtain ⟨r, hheld, ⟨hrefused, hmore, hresult⟩ | ⟨hacc, settling⟩⟩ :=
      resolving.of_guarded fun x hx => guarded x (by simp [hx])
    · refine ⟨r, hgood r hheld, .inl ⟨hrefused, ?_, hresult⟩⟩
      rw [hlook]
      cases e.caches <;> simp [hmore, hafter]
    · exact ⟨r, hgood r hheld, .inr ⟨hacc, .inr ⟨hheld, settling⟩⟩⟩

end

end AtMostOnce.Engine
