/-
Recovery of orphans.

An orphan is a record in progress whose deadline has passed.  It is open to claims unless its
lock is there, and a run whose key is open starts its function unless its cache has a
record in force.  So what is left to say is when there is a lock, and when the cache may be
in the way.

A lock comes about when a record is taken over, and whoever takes it over starts the
function then.  A lock lasts for ten seconds at most, so there is none if no function was
started for the key within the last ten seconds (`Office.Recent`).  This is as far as it
goes: an orphan that is left by a takeover is not recovered while the lock of the takeover
is there.

A cache has a record of a key only when it was completed, and loses it when the record is
given up.  So if all calls for a key go through one cache, that has no record of the key
while one is in progress (`Office.Clear`).  If the calls go through several engines, a
cache may keep a record that was removed and claimed anew behind its back.
-/
import AtMostOnce.Proofs.Engine.Office

namespace AtMostOnce.Engine

variable {κ : Type} [DecidableEq κ] {chance : Chance κ} {s : Office κ} {v : Errand κ} {k : Key}
  {i : κ}

/-! ### Locks are recent -/

/-- A lock of the key is there for ten seconds at most from a start of its function. -/
def Office.Recent (s : Office κ) (k : Key) : Prop :=
  ∀ e, s.store.lock? s.now k = some e →
    ∃ t d, (some k, t) ∈ s.started ∧ e.dropAt = some d ∧ d ≤ t + 10000

/-- What holds at the stops of a call: locks are recent, but for one that it may just have left
itself; that is recent once the call starts its function. -/
def Errand.Covers (v : Errand κ) (k : Key) (s : Office κ) : Stop v.Result → Prop
  | .granted _ => ∀ e, s.store.lock? s.now k = some e → ∃ d, e.dropAt = some d ∧
      ((∃ t, (some k, t) ∈ s.started ∧ d ≤ t + 10000) ∨
        v.call.key? = some k ∧ d ≤ s.now + 10000)
  | _ => s.Recent k

omit [DecidableEq κ] in
/-- When the function was last started ten seconds ago, the lock is gone. -/
theorem Office.Recent.free (h : s.Recent k) (sound : s.store.Sound)
    (old : ∀ t, (some k, t) ∈ s.started → t + 10000 ≤ s.now) :
    s.store.lock? s.now k = none := by
  cases hlock : s.store.lock? s.now k with
  | none => rfl
  | some e =>
    obtain ⟨t, d, hstarted, hdrop, hle⟩ := h e hlock
    have hlive := Ledger.Store.lock?_isLive sound hlock
    rw [FieldStore.Memory.isLive, hdrop] at hlive
    have hlt : s.now < d := of_decide_eq_true hlive
    exact absurd (Int.le_trans hle (old t hstarted)) (Int.not_le.mpr hlt)

omit [DecidableEq κ] in
/-- Locks are recent as long as no other lock comes about and no start is forgotten. -/
theorem Office.Recent.mono {s' : Office κ} (h : s.Recent k)
    (locks : ∀ e, s'.store.lock? s'.now k = some e → s.store.lock? s.now k = some e)
    (starts : ∀ x ∈ s.started, x ∈ s'.started) : s'.Recent k := by
  intro e he
  obtain ⟨t, d, hstarted, hdrop, hle⟩ := h e (locks e he)
  exact ⟨t, d, starts _ hstarted, hdrop, hle⟩

omit [DecidableEq κ] in
/-- A lock that is there has been there before if only time has passed. -/
theorem Office.lock_earlier (sound : s.store.Sound) {later : Millis} (hle : s.now ≤ later)
    {e : FieldStore.Entry} (he : s.store.lock? later k = some e) :
    s.store.lock? s.now k = some e := by
  rw [Ledger.Store.lock?_later sound hle] at he
  exact (Option.filter_eq_some_iff.mp he).1

omit [DecidableEq κ] in
theorem Office.Recent.wait (h : s.Recent k) (sound : s.store.Sound) (millis : Nat) :
    (s.wait millis).Recent k :=
  h.mono (fun _ => lock_earlier sound (Int.le_add_of_nonneg_right (Int.natCast_nonneg _)))
    fun _ => id

omit [DecidableEq κ] in
theorem Errand.Covers.pass {stop : Stop v.Result} (h : v.Covers k s stop)
    (sound : s.store.Sound) : v.Covers k (s.pass chance) stop := by
  have hle := Office.now_pass chance s
  cases stop with
  | granted claim =>
    intro e he
    obtain ⟨d, hdrop, hcover⟩ := h e (Office.lock_earlier sound hle he)
    exact ⟨d, hdrop, hcover.imp_right fun ⟨hk, hd⟩ =>
      ⟨hk, Int.le_trans hd (Int.add_le_add_right hle _)⟩⟩
  | _ => exact Office.Recent.mono h (fun _ => Office.lock_earlier sound hle) fun _ => id

theorem Errand.Covers.move {stop stop' : Stop v.Result} {q : Request} {token : String}
    (h : v.Covers k s stop) (sound : s.store.Sound) (hnow : Word.least ≤ s.now)
    (hk : Ledger.Fields.Derived k) (move : v.call.Move stop q (v.reply token s q).1 stop') :
    v.Covers k (v.reply token s q).2 stop' := by
  -- only a claim that is granted leaves another lock
  have same : ∀ {q'} {a : q'.Answer}, v.call.Move stop (.ledger q') a stop' →
      (∀ r, q' = .claim r → (s.store.answer s.now token (.claim r)).1 ≠ .ok .created) →
      s.Recent k → (v.reply token s (.ledger q')).2.Recent k := by
    intro q' a move ungranted h
    rcases Ledger.Store.lock?_answer sound hnow hk (derived_of_key? move.ledger_key) token with
      same | ⟨-, ⟨r, rfl, granted⟩, -⟩
    · exact h.mono (fun e he => same.symm.trans he) fun _ => id
    · exact absurd granted (ungranted r rfl)
  have seeking : ∀ {stop : Stop v.Result}, v.Covers k s stop →
      stop = .missed ∨ stop = .looking ∧ v.call.engine.caches = false → s.Recent k := by
    rintro stop h (rfl | ⟨rfl, -⟩)
    · exact h
    · exact h
  generalize ha : (v.reply token s q).1 = a at move
  cases move with
  | now => exact h
  | note => exact h
  | retry hgives =>
    obtain ⟨r, rfl⟩ | ⟨err, rfl⟩ := hgives
    · exact h
    · exact h
  | granted hclaims hstop =>
    have hkey := (Call.Move.granted hclaims hstop).ledger_key
    intro e he
    rcases Ledger.Store.lock?_answer sound hnow hk (derived_of_key? hkey) token with
      same | ⟨rfl, -, lasts⟩
    · obtain ⟨t, d, hstarted, hdrop, hd⟩ := seeking h hstop e (same.symm.trans he)
      exact ⟨d, hdrop, .inl ⟨t, hstarted, hd⟩⟩
    · obtain ⟨d, hdrop, hd⟩ := lasts e he
      exact ⟨d, hdrop, .inr ⟨hkey, hd⟩⟩
  | starts =>
    intro e he
    obtain ⟨d, hdrop, ⟨t, ht, hd⟩ | ⟨hkey, hd⟩⟩ := h e he
    · exact ⟨t, d, List.mem_cons_of_mem _ ht, hdrop, hd⟩
    · refine ⟨s.now, d, ?_, hdrop, hd⟩
      show (some k, s.now) ∈ (v.call.key?, s.now) :: s.started
      rw [hkey]
      exact List.mem_cons_self
  | startsApart => exact Office.Recent.mono h (fun _ => id) fun _ => List.mem_cons_of_mem _
  | denied hclaims hstop =>
    refine same (.denied hclaims hstop) ?_ (seeking h hstop)
    rintro r' hr granted
    cases hr
    cases granted.symm.trans ha
  | met hk' hr => exact same (.met hk' hr) (by rintro _ ⟨⟩) h
  | lost hk' => exact same (.lost hk') (by rintro _ ⟨⟩) h
  | completed hk' hr => exact same (.completed hk' hr) (by rintro _ ⟨⟩) h
  | removed hk' hf => exact same (.removed hk' hf) (by rintro _ ⟨⟩) h
  | cleared hk' => exact same (.cleared hk') (by rintro _ ⟨⟩) h
  | _ => exact h

/-- **A call leaves locks from recent starts only.** -/
theorem Errand.recent_serve (sound : s.store.Sound) (hnow : Word.least ≤ s.now)
    (hk : Ledger.Fields.Derived k) (h : s.Recent k) : (v.serve chance s).2.Recent k := by
  have keeps : v.Keeps s chance (v.Covers k) := by
    refine ⟨?_, fun token q s' stop stop' sound' hle h move =>
      h.move sound' (Int.le_trans hnow hle) hk move, fun s' stop sound' h => h.pass sound'⟩
    unfold Call.departs
    split
    · split
      · exact h
      · exact h
    · exact h
  obtain ⟨-, -, stop, hcovers, harrives⟩ := Errand.served sound keeps
  cases stop with
  | granted claim => exact absurd harrives Call.not_arrives_granted
  | _ => exact hcovers

/-! ### A cache lacks what is in progress -/

/-- While a record of the key is in progress, a cache has none. -/
def Office.Clear (s : Office κ) (i : κ) (k : Key) : Prop :=
  s.store.InProgress s.now k → (s.caches i).Lacks k

/-- What holds at the stops of a call for the key that goes through the cache. -/
def Errand.Tidy (v : Errand κ) (k : Key) (s : Office κ) : Stop v.Result → Prop
  | .looking | .found _ | .clearing | .apart => s.Clear v.call.cache k
  | .met r => s.Clear v.call.cache k ∧ (s.store.InProgress s.now k → r.status = .inProgress)
  | .completed _ _ | .cleared => ¬ s.store.InProgress s.now k
  | _ => (s.caches v.call.cache).Lacks k

omit [DecidableEq κ] in
theorem Errand.Tidy.clear {stop : Stop v.Result} (h : v.Tidy k s stop) :
    s.Clear v.call.cache k := by
  cases stop with
  | looking => exact h
  | found r => exact h
  | clearing => exact h
  | apart => exact h
  | met r => exact h.1
  | completed claim a => exact fun hprogress => absurd hprogress h
  | cleared => exact fun hprogress => absurd hprogress h
  | _ => exact fun _ => h

omit [DecidableEq κ] in
theorem Office.Clear.wait (h : s.Clear i k) (sound : s.store.Sound) (millis : Nat) :
    (s.wait millis).Clear i k :=
  fun hprogress => h (hprogress.earlier sound (Int.le_add_of_nonneg_right (Int.natCast_nonneg _)))

omit [DecidableEq κ] in
theorem Office.Clear.pass (h : s.Clear i k) (sound : s.store.Sound) :
    (s.pass chance).Clear i k :=
  fun hprogress => (h (hprogress.earlier sound (Office.now_pass chance s))).lose

omit [DecidableEq κ] in
theorem Errand.Tidy.pass {stop : Stop v.Result} (h : v.Tidy k s stop) (sound : s.store.Sound) :
    v.Tidy k (s.pass chance) stop := by
  have earlier (hprogress : (s.pass chance).store.InProgress (s.pass chance).now k) :
      s.store.InProgress s.now k := hprogress.earlier sound (Office.now_pass chance s)
  cases stop with
  | looking => exact Office.Clear.pass h sound
  | found r => exact Office.Clear.pass h sound
  | clearing => exact Office.Clear.pass h sound
  | apart => exact Office.Clear.pass h sound
  | met r => exact ⟨h.1.pass sound, fun hprogress => h.2 (earlier hprogress)⟩
  | completed claim a => exact fun hprogress => h (earlier hprogress)
  | cleared => exact fun hprogress => h (earlier hprogress)
  | _ => exact h.lose

theorem Errand.Tidy.move {stop stop' : Stop v.Result} {q : Request} {token : String}
    (h : v.Tidy k s stop) (sound : s.store.Sound) (distinct : s.store.Distinct)
    (hk : v.call.key? = some k) (hcaches : v.call.engine.caches = true)
    (move : v.call.Move stop q (v.reply token s q).1 stop') :
    v.Tidy k (v.reply token s q).2 stop' := by
  have own : ∀ {k'}, v.call.key? = some k' → k = k' :=
    fun hk' => Option.some.inj (hk.symm.trans hk')
  -- a call that goes through the cache claims only after that had no record
  have missed : ∀ {stop : Stop v.Result}, v.Tidy k s stop →
      stop = .missed ∨ stop = .looking ∧ v.call.engine.caches = false →
      (s.caches v.call.cache).Lacks k := by
    rintro stop h (rfl | ⟨-, huncached⟩)
    · exact h
    · cases hcaches.symm.trans huncached
  generalize ha : (v.reply token s q).1 = a at move
  cases move with
  | now => exact h
  | note => exact h
  | retry => exact h.clear
  | found _ hk' =>
    intro hprogress
    rw [Errand.cache_cached]
    exact (h hprogress).get
  | missed _ hk' =>
    obtain rfl := own hk'
    show ((v.reply token s (.cached k)).2.caches v.call.cache).Lacks k
    rw [Errand.cache_cached]
    exact Cache.lacks_of_get_none ha
  | granted _ hstop => exact missed h hstop
  | denied _ hstop => exact missed h hstop
  | met hk' =>
    obtain rfl := own hk'
    refine ⟨fun _ => h, fun hprogress => ?_⟩
    obtain ⟨r, hfound, hstatus⟩ := Ledger.Store.inProgress_find sound hprogress
    have hanswer := (Ledger.Store.find_answered s.store s.now token k).symm.trans ha
    cases hfound.symm.trans hanswer
    exact hstatus
  | keepMet _ _ hcompleted =>
    -- a record that is kept is completed, so none is in progress
    have rests : ¬ s.store.InProgress s.now k := by
      intro hprogress
      cases hcompleted.symm.trans (h.2 hprogress)
    exact ⟨fun hprogress => absurd hprogress rests, h.2⟩
  | completed hk' hr =>
    obtain rfl := own hk'
    obtain ⟨enc, budget, data, expiry, -, -, rfl⟩ := hr
    exact Ledger.Store.not_inProgress_completed sound distinct rfl token
  | cleared hk' =>
    obtain rfl := own hk'
    exact Ledger.Store.not_inProgress_of_vacant (Ledger.Store.vacant_removed sound s.now token k)
  | forgotten _ hk' =>
    obtain rfl := own hk'
    exact Errand.lacks_forget v token s k
  | wiped _ hk' =>
    obtain rfl := own hk'
    exact Errand.lacks_forget v token s k
  | _ => exact h

theorem Errand.distinct_reply (h : s.store.Distinct) (token : String) (q : Request) :
    (v.reply token s q).2.store.Distinct := by
  cases q with
  | ledger q => exact h.answer s.now token q
  | _ => exact h

theorem Errand.distinct_serve (sound : s.store.Sound) (h : s.store.Distinct) :
    (v.serve chance s).2.store.Distinct := by
  have keeps : v.Keeps s chance fun s' _ => s'.store.Distinct :=
    ⟨h, fun token q _ _ _ _ _ h _ => Errand.distinct_reply h token q, fun _ _ _ h => h⟩
  obtain ⟨-, -, -, hends, -⟩ := Errand.served sound keeps
  exact hends

/-- A call for the key that goes through the cache leaves that clear. -/
theorem Errand.clear_serve (sound : s.store.Sound) (distinct : s.store.Distinct)
    (hk : v.call.key? = some k) (hcaches : v.call.engine.caches = true)
    (h : s.Clear v.call.cache k) : (v.serve chance s).2.Clear v.call.cache k := by
  have keeps : v.Keeps s chance fun s' stop => s'.store.Distinct ∧ v.Tidy k s' stop := by
    refine ⟨⟨distinct, ?_⟩, ?_, fun s' stop sound' h => ⟨h.1, h.2.pass sound'⟩⟩
    · unfold Call.departs
      split
      · split
        · exact h
        · exact h
      · exact h
    · rintro token q s' stop stop' sound' - ⟨distinct', htidy⟩ move
      exact ⟨Errand.distinct_reply distinct' token q,
        htidy.move sound' distinct' hk hcaches move⟩
  obtain ⟨-, -, stop, ⟨-, htidy⟩, -⟩ := Errand.served sound keeps
  exact htidy.clear

/-- A call about another key leaves the cache clear. -/
theorem Errand.clear_serve_other (sound : s.store.Sound) (hk : Ledger.Fields.Derived k)
    (hne : v.call.key? ≠ some k) (h : s.Clear i k) : (v.serve chance s).2.Clear i k := by
  have keeps : v.Keeps s chance fun s' _ => s'.Clear i k := by
    refine ⟨h, ?_, fun s' _ sound' h => h.pass sound'⟩
    intro token q s' stop stop' sound' _ h move hprogress
    refine Errand.lacks_reply move hne (h ?_)
    cases q with
    | ledger q =>
      have hkey := move.ledger_key
      exact Ledger.Store.inProgress_answer_other sound' hk (derived_of_key? hkey)
        (fun hr => hne (hr ▸ hkey)) hprogress
    | _ => exact hprogress
  obtain ⟨-, -, -, hends, -⟩ := Errand.served sound keeps
  exact hends

/-! ### Offices that were opened without records -/

variable {store : Ledger.Store} {now : Millis} {capacity : κ → Nat}
  {history : List (Nat × Errand κ)} {gap : Nat}

theorem Office.sound_reached (blank : store.Blank)
    (reached : s = ((opened now store capacity).after chance history).wait gap) :
    s.store.Sound := by
  rw [reached]
  exact sound_after (s := opened now store capacity) blank.sound chance history

/-- However the calls went, locks are recent. -/
theorem Office.recent_reached (blank : store.Blank) (hnow : Word.least ≤ now)
    (hk : Ledger.Fields.Derived k)
    (reached : s = ((opened now store capacity).after chance history).wait gap) :
    s.Recent k := by
  have opening : (opened now store capacity).Recent k := by
    intro e he
    rw [show (opened now store capacity).store.lock? (opened now store capacity).now k =
      store.lock? now k from rfl, blank.lock?] at he
    cases he
  obtain ⟨sound, -, recent⟩ := after_keeps (s := opened now store capacity)
    (fun s => Word.least ≤ s.now ∧ s.Recent k) blank.sound ⟨hnow, opening⟩ chance history
    (fun s millis sound h => ⟨Int.le_trans h.1 (Int.le_add_of_nonneg_right (Int.natCast_nonneg _)),
      h.2.wait sound millis⟩)
    fun x _ s sound h => ⟨Int.le_trans h.1 (Errand.now_serve sound),
      Errand.recent_serve sound h.1 hk h.2⟩
  rw [reached]
  exact recent.wait sound gap

/-- If all calls for the key went through one cache, that is clear. -/
theorem Office.clear_reached (blank : store.Blank) (distinct : store.Distinct)
    (hk : Ledger.Fields.Derived k)
    (through : ∀ x ∈ history, x.2.call.key? = some k →
      x.2.call.engine.caches = true ∧ x.2.call.cache = i)
    (reached : s = ((opened now store capacity).after chance history).wait gap) :
    s.Clear i k := by
  have opening : (opened now store capacity).Clear i k := fun _ => Cache.lacks_empty _ k
  obtain ⟨sound, -, clear⟩ := after_keeps (s := opened now store capacity)
    (fun s => s.store.Distinct ∧ s.Clear i k) blank.sound ⟨distinct, opening⟩ chance history
    (fun s millis sound h => ⟨h.1, h.2.wait sound millis⟩)
    fun x hx s sound h => ⟨Errand.distinct_serve sound h.1, by
      by_cases hkey : x.2.call.key? = some k
      · obtain ⟨hcaches, rfl⟩ := through x hx hkey
        exact Errand.clear_serve sound h.1 hkey hcaches h.2
      · exact Errand.clear_serve_other sound hk hkey h.2⟩
  rw [reached]
  exact clear.wait sound gap

/-! ### Recovery -/

/-- **A run starts its function if the record of its key is an orphan, no lock of the key is there,
and its cache has no record in force.**

No lock is there if no function was started for the key within the last ten seconds.  The
cache has no record in force if all calls for the key went through it, and the record's
fields have different names. -/
theorem orphan_recovered (blank : store.Blank) (hnow : Word.least ≤ now)
    (reached : s = ((Office.opened now store capacity).after chance history).wait gap)
    {enc : Encoding v.Result} {left : Option Nat} {r : Record}
    (enabled : v.call.engine.settings.disabled = false) (ht : v.call.task = .run enc left)
    (hk : v.call.key? = some k) (found : s.store.find? s.now k = .ok r)
    (inProgress : r.status = .inProgress) (overdue : r.isOverdue s.now = true)
    (unlocked : s.store.lock? s.now k = none ∨
      ∀ t, (some k, t) ∈ s.started → t + 10000 ≤ s.now)
    (uncached : (v.call.engine.caches = true → ∀ r' ∈ (s.caches v.call.cache).records,
        r'.key = k → r'.isExpired (secondsOf s.now) = true) ∨
      store.Distinct ∧ ∀ x ∈ history, x.2.call.key? = some k →
        x.2.call.engine.caches = true ∧ x.2.call.cache = v.call.cache) :
    s.Starts k (v.serve chance s).2 := by
  have sound := Office.sound_reached blank reached
  have derived := derived_of_key? hk
  have free : s.store.lock? s.now k = none :=
    unlocked.elim id ((Office.recent_reached blank hnow derived reached).free sound)
  have expired : v.call.engine.caches = true → ∀ r' ∈ (s.caches v.call.cache).records,
      r'.key = k → r'.isExpired (secondsOf s.now) = true := by
    rcases uncached with uncached | ⟨distinct, through⟩
    · exact uncached
    · intro _ r' hr' hkey
      have clear := Office.clear_reached blank distinct derived through reached
      exact absurd hkey (clear ⟨r, found, inProgress⟩ r' hr')
  have isOpen := Ledger.Store.open_of_orphan sound found inProgress overdue free
  exact (Errand.starts_of_open sound isOpen expired enabled ht hk).1

/-! ### An orphan that is left by a takeover

Both runs leave their record in progress, and the second one takes over that of the first.
-/

/-- So many milliseconds after the second run. -/
def twiceDeclined (gap : Nat) : Office Unit :=
  ((Office.opened 0 (.fields .initial .empty) fun _ => 4).after quiet
    [(0, charged true declined), (2000, charged true declined)]).wait gap

/-- The orphan of the second run. -/
def takenOver : Record := ⟨order, .inProgress, some 3602, some 3000, none, none⟩

/-- Ten seconds after the takeover the orphan is recovered. -/
theorem orphan_recovered_later :
    (twiceDeclined 10000).store.find? (twiceDeclined 10000).now order = .ok takenOver ∧
      (twiceDeclined 10000).Starts order
        ((charged true (.ok "paid")).serve quiet (twiceDeclined 10000)).2 := by
  have blank : (Ledger.Store.fields .initial .empty).Blank := rfl
  obtain ⟨hnow, found, hstarted⟩ : (twiceDeclined 10000).now = 12000 ∧
      (twiceDeclined 10000).store.find? (twiceDeclined 10000).now order = .ok takenOver ∧
      (twiceDeclined 10000).started = [(some order, 2000), (some order, 0)] := by decide +kernel
  have old : ∀ t, (some order, t) ∈ (twiceDeclined 10000).started →
      t + 10000 ≤ (twiceDeclined 10000).now := by
    rw [hnow, hstarted]
    simp
  refine ⟨found, orphan_recovered blank (by decide) (rfl : twiceDeclined 10000 = _) rfl rfl
    (charged_key true _) found rfl (by rw [hnow]; rfl) (.inr old)
    (.inr ⟨Ledger.Fields.initial_distinct, ?_⟩)⟩
  exact List.forall_mem_cons.mpr ⟨fun _ => ⟨rfl, rfl⟩,
    List.forall_mem_singleton.mpr fun _ => ⟨rfl, rfl⟩⟩

/-! ### Orphans that are not recovered -/

/-- Would every run recover an orphan, whatever calls came before since the ledger was new? -/
def Recovers (store : Ledger.Store) : Prop :=
  ∀ (now : Millis) (capacity : Unit → Nat) (chance : Chance Unit)
    (history : List (Nat × Errand Unit)) (gap : Nat) (s : Office Unit) (v : Errand Unit)
    (enc : Encoding v.Result) (left : Option Nat) (k : Key) (r : Record),
    s = ((Office.opened now store capacity).after chance history).wait gap →
    v.call.engine.settings.disabled = false → v.call.task = .run enc left →
    v.call.key? = some k → s.store.find? s.now k = .ok r → r.status = .inProgress →
    r.isOverdue s.now = true → r.isExpired (secondsOf s.now) = false →
    s.Starts k (v.serve chance s).2

/-- A removal of the order's record by an engine without a cache. -/
def withdrawn : Errand Unit :=
  ⟨String, ⟨declining false, (), .ok (.string "order"), .delete⟩, .ok ""⟩

/-- The first engine has a cache and completes the order; the second one has none, removes the
record, and leaves an orphan. -/
def behindCache : Office Unit :=
  ((Office.opened 0 (.memory []) fun _ => 4).after quiet
    [(0, charged true (.ok "paid")), (0, withdrawn), (0, charged false declined)]).wait 2000

def leftBehind : Record := ⟨order, .inProgress, some 3600, some 1000, none, none⟩

omit [DecidableEq κ] in
theorem Office.not_starts {s' : Office κ} (h : s'.started = s.started) : ¬ s.Starts k s' := by
  rintro ⟨t, ht⟩
  exact List.cons_ne_self _ _ (ht.symm.trans h)

/-- An orphan stays while the lock of a takeover is there, and while a cache has a record. -/
theorem orphans_stay : ¬ Recovers (.fields .initial .empty) ∧ ¬ Recovers (.memory []) := by
  constructor
  · intro recovers
    obtain ⟨hnow, found, stays⟩ : (twiceDeclined 2000).now = 4000 ∧
        (twiceDeclined 2000).store.find? (twiceDeclined 2000).now order = .ok takenOver ∧
        ((charged true (.ok "paid")).serve quiet (twiceDeclined 2000)).2.started =
          (twiceDeclined 2000).started := by decide +kernel
    exact Office.not_starts stays (recovers 0 _ quiet _ 2000 (twiceDeclined 2000)
      (charged true (.ok "paid")) plain (some 1000) order takenOver rfl rfl rfl
      (charged_key true _) found rfl (by rw [hnow]; rfl) (by rw [hnow]; rfl))
  · intro recovers
    obtain ⟨hnow, found, stays⟩ : behindCache.now = 2000 ∧
        behindCache.store.find? behindCache.now order = .ok leftBehind ∧
        ((charged true (.ok "paid")).serve quiet behindCache).2.started =
          behindCache.started := by decide +kernel
    exact Office.not_starts stays (recovers 0 _ quiet _ 2000 behindCache
      (charged true (.ok "paid")) plain (some 1000) order leftBehind rfl rfl rfl
      (charged_key true _) found rfl (by rw [hnow]; rfl) (by rw [hnow]; rfl))

end AtMostOnce.Engine
