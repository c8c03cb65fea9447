/-
Admission and dispatch.

A ledger in memory decides whether a record gives way to a claim, and the engine decides what
becomes of a record that did not.  The ledger looks at the milliseconds of one point in time;
the engine looks at the seconds first, and at the milliseconds if the record is in progress.
While no time passes, the two leave no gap: a record that does not give way is in force when
the engine looks at it, so a run decides in its first attempt (`dispatch_agrees`).

There are two kinds of runs.  A claim that meets a record is refused, and how the attempt ends
is read off what it was shown (`Running.of_held`).  A claim that meets none is granted, and so
is all that the run asks for after it (`Running.of_granted`).
-/
import AtMostOnce.Proofs.Engine.Drift
import AtMostOnce.Proofs.Engine.Stages

namespace AtMostOnce

namespace Record

variable {r : Record} {now later : Millis}

/-- A record that gives way to claims goes on to do so. -/
theorem isReplaceable_later (h : r.isReplaceable now = true) (hle : now ≤ later) :
    r.isReplaceable later = true := by
  simp only [isReplaceable, Bool.or_eq_true, Bool.and_eq_true] at h ⊢
  rcases h with hexpired | ⟨hstatus, hoverdue⟩
  · exact .inl (isExpired_later hexpired (Engine.secondsOf_le hle))
  · exact .inr ⟨hstatus, isOverdue_later hoverdue hle⟩

end Record

/-- A key is open to claims if the record under it gives way, or if there is none. -/
theorem Ledger.Store.open_of_memory {records : Memory} {now : Millis} {k : Key}
    (free : ∀ r, records.get? k = some r → r.isReplaceable now = true) :
    (memory records).Open now k := by
  intro later token r hle hkey
  subst hkey
  show (Memory.answer later (.claim r) records).1 = _
  rw [Memory.answer, if_pos]
  rw [Memory.isFree]
  cases hget : records.get? r.key with
  | none => rfl
  | some held => exact Record.isReplaceable_later (free held hget) hle

namespace Engine

variable {κ α : Type} [DecidableEq κ] {chance : Chance κ} {s s' : Office κ} {v : Errand κ} {k : Key}
  {c : Call κ α} {r : Record}

/-! ### One attempt -/

section

variable {e : Engine} {enc : Encoding α} {payload : Json.Value} {digest : String} {retries : Nat}
  {started started' : Bool} {l : List (Act α)} {result : Except Error α} {st : List Stage}
  {o : List (Act α)} {last : Millis}

theorem Exit.count_notStarted (h : Exit e st o result) : st = [] ∨ st.count .notStarted = 1 := by
  cases h with
  | keyless => exact .inl rfl
  | _ => exact .inr rfl

theorem Resolving.retries_notMem (h : Resolving e enc k digest l result) : .retries ∉ l := by
  cases h with
  | lost => simp
  | refused => simp
  | settles _ settling => cases settling <;> simp

theorem Calling.retries_notMem (h : Calling e enc k l result) : .retries ∉ l := by
  cases h with
  | returned finishing => cases finishing <;> simp
  | failed failing => cases failing <;> simp

theorem Claiming.retries_notMem (h : Claiming e enc k digest started l (result, started')) :
    .retries ∉ l := by
  generalize hp : (result, started') = p at h
  cases h with
  | fails => simp
  | spent => simp
  | calls calling => simp [calling.retries_notMem]
  | replays resolving => simp [resolving.retries_notMem]
  | meets resolving => simp [resolving.retries_notMem]

/-- Without a cache, an attempt goes straight to the claim of its key. -/
theorem Attempting.claiming (h : Attempting e enc payload started l (result, started'))
    (hk : e.rule.derive payload = .ok k) (uncached : e.caches = false) :
    ∃ t t' more,
      l = .comes .notStarted :: .reads t :: .reads t' :: .comes .savingInProgress :: more ∧
        Claiming e enc k (e.check.compute payload) started more (result, started') := by
  generalize hp : (result, started') = p at h
  cases h with
  | keyless hnone => cases hnone.symm.trans hk
  | refused _ hcaches => simp [uncached] at hcaches
  | hits _ hcaches => simp [uncached] at hcaches
  | claims hk' hlook claiming =>
    obtain rfl := Except.ok.inj (hk.symm.trans hk')
    rw [uncached] at hlook
    obtain rfl : _ = [] := hlook
    exact ⟨_, _, _, rfl, claiming⟩

/-- What is told of an attempt is told of one. -/
theorem Attempting.once (h : Attempting e enc payload started l (result, started'))
    (hk : e.rule.derive payload = .ok k) (uncached : e.caches = false) :
    .retries ∉ l ∧ (stages l).count .notStarted = 1 := by
  have hexit := h.exit.resolve_right fun hspoils => h.not_spoils uncached hspoils.1
  obtain ⟨t, t', more, rfl, claiming⟩ := h.claiming hk uncached
  refine ⟨by simp [claiming.retries_notMem], hexit.count_notStarted.resolve_left ?_⟩
  simp [stages, Act.stage?]

/-- The first attempt of a run is the whole run, unless its error is one to be retried. -/
theorem Running.first (h : Running e enc payload retries started l result) :
    ∃ l' result' started', Attempting e enc payload started l' (result', started') ∧ l' <+: l ∧
      ((∀ err, result' = .error err → err.isRetryable = false) → l' = l ∧ result' = result) := by
  cases h with
  | last attempting => exact ⟨_, _, _, attempting, List.prefix_rfl, fun _ => ⟨rfl, rfl⟩⟩
  | again attempting retryable =>
    refine ⟨_, _, _, attempting, List.prefix_append _ _, fun final => ?_⟩
    simp [final _ rfl] at retryable

/-! ### Runs that meet a record -/

/-- How a run ends whose key is held by the record. -/
structure Call.Meets (c : Call κ α) (enc : Encoding α) (k : Key) (r : Record)
    (result : Except Error α) : Prop where
  refused : ¬ c.accepts r → result = .error (.payloadValidation k)
  busy : c.accepts r → r.status = .inProgress → result = .error (.alreadyInProgress k)
  replayed : c.accepts r → r.status = .completed →
    result = c.engine.replay enc ⟨k, c.engine.functionName⟩ r

/-- A record that does not give way by the end of the run is in force when it is looked at. -/
theorem Settling.of_held {good held : Record → Prop} (h : Settling e enc k r l result)
    (guarded : ∀ x ∈ l, x.Guarded good held last) (known : r.status ≠ .expired)
    (stays : r.isReplaceable last = false) :
    r.status = .inProgress ∧ result = .error (.alreadyInProgress k) ∨
      r.status = .completed ∧ result = e.replay enc ⟨k, e.functionName⟩ r := by
  have unexpired : ∀ {t}, t ≤ last → r.isExpired (secondsOf t) = false := by
    intro t hle
    rw [← Bool.not_eq_true]
    intro hexpired
    have hlater := Record.isExpired_later hexpired (secondsOf_le hle)
    simp [Record.isReplaceable, hlater] at stays
  have statusAt : ∀ {t}, .reads t ∈ l → r.statusAt (secondsOf t) = r.status := by
    intro t ht
    rw [Record.statusAt, unexpired (guarded _ ht)]
    rfl
  cases h with
  | expired hst => exact absurd ((statusAt (by simp)).symm.trans hst) known
  | overdue hst late =>
    have hstatus := (statusAt (by simp)).symm.trans hst
    have hoverdue := Record.isOverdue_later late (guarded (.reads _) (by simp))
    simp [Record.isReplaceable, hstatus, hoverdue] at stays
  | busy hst => exact .inl ⟨(statusAt (by simp)).symm.trans hst, rfl⟩
  | replays hst decoded => exact .inr ⟨(statusAt (by simp)).symm.trans hst, decoded.symm⟩
  | spoilt hst undecoded => exact .inr ⟨(statusAt (by simp)).symm.trans hst, undecoded.symm⟩

/-- A run whose key is held is over after one attempt, and ends as the record says. -/
theorem Running.of_held (h : Running e enc payload retries started l result)
    (guarded : ∀ x ∈ l, x.Guarded (· = r) (· = r) last) (hk : e.rule.derive payload = .ok k)
    (uncached : e.caches = false) (hkey : r.key = k) (known : r.status ≠ .expired)
    (stays : r.isReplaceable last = false) :
    (.retries ∉ l ∧ (stages l).count .notStarted = 1) ∧
      (∀ err, result = .error err → err.isRetryable = false) ∧
      (e.check.accepts r (e.check.compute payload) = false ∧
          result = .error (.payloadValidation k) ∨
        e.check.accepts r (e.check.compute payload) = true ∧
          (r.status = .inProgress ∧ result = .error (.alreadyInProgress k) ∨
            r.status = .completed ∧ result = e.replay enc ⟨k, e.functionName⟩ r)) := by
  obtain ⟨l', result', started', attempting, hfront, whole⟩ := h.first
  obtain ⟨t, t', more, hl', claiming⟩ := attempting.claiming hk uncached
  have guarded' : ∀ x ∈ more, x.Guarded (· = r) (· = r) last :=
    fun x hx => guarded x (hfront.subset (by simp [hl', hx]))
  obtain ⟨looked, after, rfl, -, resolving⟩ := claiming.of_guarded guarded'
  obtain ⟨_, rfl, hends⟩ := resolving.of_guarded fun x hx => guarded' x (by simp [hx])
  rcases hends with ⟨hrefused, -, rfl⟩ | ⟨hacc, _, settling, hsettling⟩
  · obtain ⟨rfl, rfl⟩ := whole fun err herr => by cases herr; rfl
    exact ⟨attempting.once hk uncached, fun err herr => by cases herr; rfl,
      .inl ⟨hrefused, by rw [hkey]⟩⟩
  · have settled := settling.of_held hsettling known stays
    have final : ∀ err, result' = .error err → err.isRetryable = false := by
      rintro err rfl
      rcases settled with ⟨-, herr⟩ | ⟨-, hreplay⟩
      · cases herr
        rfl
      · obtain ⟨reason, rfl⟩ := replay_error hreplay.symm
        rfl
    obtain ⟨rfl, rfl⟩ := whole final
    exact ⟨attempting.once hk uncached, final, .inr ⟨hacc, settled⟩⟩

/-! ### Runs that meet none -/

/-- What a run does whose key is open to claims, and what it is told. -/
def Act.Granted : Act α → Prop
  | .looks _ | .finds _ => False
  | .claims answer => answer = .ok .created
  | .completes answer | .removes answer => answer = .ok ()
  | _ => True

/-- A claim that is granted leads to a call of the function. -/
theorem Claiming.of_granted (h : Claiming e enc k digest false l (result, started'))
    (granted : ∀ x ∈ l, x.Granted) :
    ∃ called, l = .claims (.ok .created) :: called ∧ Calling e enc k called result := by
  generalize hp : (result, started') = p at h
  cases h with
  | fails => cases granted _ List.mem_cons_self
  | calls calling =>
    cases hp
    exact ⟨_, rfl, calling⟩
  | replays => cases granted _ List.mem_cons_self
  | meets => cases granted _ List.mem_cons_self

/-- A call whose record can be completed or removed is not tried again. -/
theorem Calling.of_granted (h : Calling e enc k l result) (granted : ∀ x ∈ l, x.Granted) :
    .starts ∈ l ∧ ∀ err, result = .error err → err.isRetryable = false := by
  cases h with
  | returned finishing =>
    cases finishing with
    | @unstorable err =>
      refine ⟨by simp, ?_⟩
      rintro _ ⟨⟩
      rfl
    | @unsaved t err => cases granted (.completes (.error err)) (by simp)
    | saved => exact ⟨by simp, nofun⟩
  | failed failing =>
    cases failing with
    | rolledBack =>
      refine ⟨by simp, ?_⟩
      rintro _ ⟨⟩
      rfl
    | @stuck err => cases granted (.removes (.error err)) (by simp)
    | kept =>
      refine ⟨by simp, ?_⟩
      rintro _ ⟨⟩
      rfl

/-- A run that is granted all that it asks for starts its function in its only attempt. -/
theorem Running.of_granted (h : Running e enc payload retries false l result)
    (granted : ∀ x ∈ l, x.Granted) (hk : e.rule.derive payload = .ok k)
    (uncached : e.caches = false) :
    (.retries ∉ l ∧ (stages l).count .notStarted = 1) ∧
      (∀ err, result = .error err → err.isRetryable = false) ∧ .starts ∈ l := by
  obtain ⟨l', result', started', attempting, hfront, whole⟩ := h.first
  obtain ⟨t, t', more, hl', claiming⟩ := attempting.claiming hk uncached
  have granted' : ∀ x ∈ more, x.Granted :=
    fun x hx => granted x (hfront.subset (by simp [hl', hx]))
  obtain ⟨called, rfl, calling⟩ := claiming.of_granted granted'
  obtain ⟨hstarts, final⟩ := calling.of_granted fun x hx => granted' x (by simp [hx])
  obtain ⟨rfl, rfl⟩ := whole final
  exact ⟨attempting.once hk uncached, final, by simp [hl', hstarts]⟩

end

omit [DecidableEq κ] in
/-- What a run asks whose key is open to claims is granted. -/
theorem Errand.Unhindered.granted {stop stop' : Stop v.Result} {q : Request} {a : Answer v.Result q}
    {s'' : Office κ} (h : v.Unhindered s k s' stop) (h' : v.Unhindered s k s'' stop')
    (uncached : v.call.engine.caches = false) (move : v.call.Move stop q a stop') :
    ∀ x ∈ act? q a, x.Granted := by
  cases move with
  | @note _ event =>
    cases event with
    | reached stage n => simp [act?, Act.Granted]
    | warning w => cases w <;> simp [act?, Act.Granted]
  | found hcaches => simp [uncached] at hcaches
  | missed hcaches => simp [uncached] at hcaches
  | denied => exact h'.elim
  | met => exact h.elim
  | lost => exact h.elim
  | _ => simp [act?, Act.Granted]

/-! ### The ledger and the engine agree -/

/-- The run comes to its result in one attempt, as the record under its key decides. -/
structure Errand.Decides (v : Errand κ) (chance : Chance κ) (s : Office κ)
    (enc : Encoding v.Result) (k : Key) (records : Ledger.Memory)
    (result : Except Error v.Result) : Prop where
  returns : (v.serve chance s).1 = .returned result
  /-- There is one attempt. -/
  once : .retries ∉ v.account chance s ∧ (stages (v.account chance s)).count .notStarted = 1
  consistent : ∀ reason, result ≠ .error (.inconsistentState reason)
  starts : .starts ∈ v.account chance s ↔
    ∀ r, records.get? k = some r → r.isReplaceable s.now = true
  meets : ∀ r, records.get? k = some r → r.isReplaceable s.now = false → v.call.Meets enc k r result

variable {records : Ledger.Memory} {enc : Encoding v.Result} {left : Option Nat}

omit [DecidableEq κ] in
theorem consistent_of_final {result : Except Error α}
    (final : ∀ err, result = .error err → err.isRetryable = false) (reason : String) :
    result ≠ .error (.inconsistentState reason) := by
  intro hresult
  cases final _ hresult

/-- A run decides whose key is held by a record. -/
theorem Errand.decides_of_held (hstore : s.store = .memory records) (keyed : records.Keyed)
    (still : ∀ n, chance.passes n = 0) (enabled : v.call.engine.settings.disabled = false)
    (uncached : v.call.engine.caches = false) (ht : v.call.task = .run enc left)
    (hk : v.call.key? = some k) (hget : records.get? k = some r)
    (stays : r.isReplaceable s.now = false) (known : r.status ≠ .expired) :
    ∃ result, v.Decides chance s enc k records result := by
  obtain ⟨payload, hp, hderive⟩ := Call.key?_eq_some hk
  have sound : s.store.Sound := by
    rw [hstore]
    exact keyed
  have holds : s.Holds k (· = r) s.now := by
    intro t hle hge
    obtain rfl : s.now = t := Int.le_antisymm hle hge
    refine ⟨r, ?_, stays, rfl⟩
    rw [hstore, Ledger.Store.find?_memory, hget]
  have hcache : s.Caches v.call k (· = r) := by
    intro hcaches
    simp [uncached] at hcaches
  obtain ⟨⟨stop, spared⟩, result, hresult, running⟩ := Errand.guarded_run sound hcache
    (fun _ => id) holds (Int.le_of_eq (Errand.now_still sound still)) enabled ht hp hk
  obtain ⟨once, final, hends⟩ := running.of_held spared.guarded hderive uncached
    (keyed k r hget) known stays
  have hdigest : v.call.digest = v.call.engine.check.compute payload := by rw [Call.digest, hp]
  rw [← hdigest] at hends
  have meets : v.call.Meets enc k r result := by
    constructor
    · intro hrefused
      rcases hends with ⟨-, hresult⟩ | ⟨hacc, -⟩
      · exact hresult
      · exact absurd hacc hrefused
    · intro hacc hstatus
      rcases hends with ⟨hrefused, -⟩ | ⟨-, ⟨-, hresult⟩ | ⟨hcompleted, -⟩⟩
      · cases hrefused.symm.trans hacc
      · exact hresult
      · cases hcompleted.symm.trans hstatus
    · intro hacc hstatus
      rcases hends with ⟨hrefused, -⟩ | ⟨-, ⟨hprogress, -⟩ | ⟨-, hresult⟩⟩
      · cases hrefused.symm.trans hacc
      · cases hprogress.symm.trans hstatus
      · exact hresult
  refine ⟨result, hresult, once, consistent_of_final final, iff_of_false ?_ ?_, ?_⟩
  · exact fun hstarts => spared.guarded _ hstarts
  · intro free
    cases stays.symm.trans (free r hget)
  · intro r' hget' _
    obtain rfl := Option.some.inj (hget.symm.trans hget')
    exact meets

/-- A run decides whose key is open to claims. -/
theorem Errand.decides_of_free (hstore : s.store = .memory records) (keyed : records.Keyed)
    (enabled : v.call.engine.settings.disabled = false)
    (uncached : v.call.engine.caches = false) (ht : v.call.task = .run enc left)
    (hk : v.call.key? = some k)
    (free : ∀ r, records.get? k = some r → r.isReplaceable s.now = true) :
    ∃ result, v.Decides chance s enc k records result := by
  obtain ⟨payload, hp, hderive⟩ := Call.key?_eq_some hk
  have sound : s.store.Sound := by
    rw [hstore]
    exact keyed
  have isOpen : s.store.Open s.now k := by
    rw [hstore]
    exact Ledger.Store.open_of_memory free
  have begins : v.Unhindered s k s v.call.departs := by
    rw [Call.departs_run ht enabled]
    exact ⟨rfl, rfl, fun hcaches => by simp [uncached] at hcaches⟩
  obtain ⟨⟨stop, -, -, granted⟩, result, hresult, running⟩ := Errand.accounted
    (fun s' stop l => s.now ≤ s'.now ∧ v.Unhindered s k s' stop ∧ ∀ x ∈ l, x.Granted)
    sound (tells_talk ht hp enabled)
    ⟨Int.le_refl _, begins, by simp⟩
    (by
      rintro token q s' stop stop' l - ⟨hnow, h, hl⟩ move
      have h' := h.move isOpen hk hnow move
      refine ⟨by rwa [Errand.now_reply], h', ?_⟩
      intro x hx
      rcases List.mem_append.mp hx with hx | hx
      · exact hl x hx
      · exact h.granted h' uncached move x (Option.mem_toList.mp hx))
    fun s' stop l h => ⟨Int.le_trans h.1 (Office.now_pass chance s'), h.2.1.pass, h.2.2⟩
  obtain ⟨once, final, hstarts⟩ := running.of_granted granted hderive uncached
  refine ⟨result, hresult, once, consistent_of_final final, iff_of_true hstarts free, ?_⟩
  intro r hget stays
  cases stays.symm.trans (free r hget)

/-- **A ledger in memory and the engine agree on what a record stands for.**  While no time passes,
a run of an engine without a cache has one attempt and never ends with an inconsistent state.  It
starts its function exactly if there is no record under its key or that gives way; otherwise it ends
as the record says. -/
theorem dispatch_agrees (hstore : s.store = .memory records) (keyed : records.Keyed)
    (known : ∀ r, records.get? k = some r → r.status ≠ .expired)
    (still : ∀ n, chance.passes n = 0) (enabled : v.call.engine.settings.disabled = false)
    (uncached : v.call.engine.caches = false) (ht : v.call.task = .run enc left)
    (hk : v.call.key? = some k) : ∃ result, v.Decides chance s enc k records result := by
  by_cases free : ∀ r, records.get? k = some r → r.isReplaceable s.now = true
  · exact Errand.decides_of_free hstore keyed enabled uncached ht hk free
  · simp only [not_forall, Bool.not_eq_true] at free
    obtain ⟨r, hget, stays⟩ := free
    exact Errand.decides_of_held hstore keyed still enabled uncached ht hk hget stays
      (known r hget)

/-! ### Around the second of expiry -/

/-- The order was paid, and the record counts until the clock is at zero. -/
def paidBeforeZero : Record := ⟨order, .completed, some (-1), none, some "paid", none⟩

/-- The record is in a ledger in memory. -/
def holding (now : Millis) : Office Unit :=
  ⟨now, .memory [(order, paidBeforeZero)], fun _ => .empty 4, 0, []⟩

/-- A millisecond before zero the payment is replayed, and at zero the function is started. -/
theorem dispatch_agrees_around_zero :
    ((charged false (.ok "again")).serve quiet (holding (-1))).1 = .returned (.ok "paid") ∧
      .starts ∈ (charged false (.ok "again")).account quiet (holding 0) := by
  have only : ∀ {k r}, Assoc.get? [(order, paidBeforeZero)] k = some r →
      k = order ∧ r = paidBeforeZero := by
    intro k r hget
    by_cases hk : order = k
    · subst hk
      simpa [Assoc.get?, eq_comm] using hget
    · simp [Assoc.get?, hk] at hget
  have keyed : Ledger.Memory.Keyed [(order, paidBeforeZero)] := by
    intro k r hget
    obtain ⟨rfl, rfl⟩ := only hget
    rfl
  have known : ∀ r, Assoc.get? [(order, paidBeforeZero)] order = some r → r.status ≠ .expired := by
    intro r hget
    obtain ⟨-, rfl⟩ := only hget
    decide
  have decides : ∀ now, ∃ result, (charged false (.ok "again")).Decides quiet (holding now) plain
      order [(order, paidBeforeZero)] result := fun now =>
    dispatch_agrees rfl keyed known (fun _ => rfl) rfl rfl rfl (charged_key false _)
  constructor
  · obtain ⟨result, before⟩ := decides (-1)
    have meets := before.meets paidBeforeZero (by simp [Assoc.get?]) rfl
    rw [before.returns, meets.replayed rfl rfl]
    rfl
  · obtain ⟨result, after⟩ := decides 0
    refine after.starts.mpr fun r hget => ?_
    obtain ⟨-, rfl⟩ := only hget
    rfl

end Engine

end AtMostOnce
