/-
One call after the other, over a ledger of either kind.

No call overlaps another, but time passes after every question that a call asks, and the
caches may lose records then; the engines may differ from call to call, and each has one of
several caches.  A call is served by answering its dialogue to the end (`Errand.serve`), so
whatever every move and the passing of time keep holds after a whole call
(`Errand.served`), and what every call keeps holds after any number of them
(`Office.after_keeps`).

A call whose key is open to claims, and whose cache has no record in force, starts its
function (`Errand.starts_of_open`).
-/
import AtMostOnce.Proofs.Engine.Stops
import AtMostOnce.Proofs.Store

namespace AtMostOnce

namespace Record

/-- A record that has expired stays so. -/
theorem isExpired_later {r : Record} {now later : Seconds} (h : r.isExpired now = true)
    (hle : now ≤ later) : r.isExpired later = true := by
  unfold isExpired at h ⊢
  split at h
  · exact decide_eq_true (Int.lt_of_lt_of_le (of_decide_eq_true h) hle)
  · cases h

end Record

namespace Cache

/-- The cache has no record of the key. -/
def Lacks (c : Cache) (k : Key) : Prop := ∀ r ∈ c.records, r.key ≠ k

variable {c : Cache} {now : Seconds} {k k' : Key}

theorem lacks_empty (capacity : Nat) (k : Key) : (empty capacity).Lacks k := nofun

theorem lacks_erase (c : Cache) (k : Key) : (c.erase k).Lacks k := fun _ => key_of_mem_erase

theorem lacks_of_get_none (h : (c.get now k).1 = none) : (c.get now k).2.Lacks k :=
  fun _ => key_of_get_none h

theorem Lacks.get (h : c.Lacks k) : (c.get now k').2.Lacks k := fun r hr => h r (mem_get hr)

theorem Lacks.lose {losing : Record → Bool} (h : c.Lacks k) : (c.lose losing).Lacks k :=
  fun r hr => h r (mem_lose hr)

end Cache

namespace Engine

open Dialogue

variable {κ : Type} [DecidableEq κ]

/-! ### Offices -/

/-- What calls find that are served one after the other. -/
structure Office (κ : Type) where
  now : Millis
  store : Ledger.Store
  caches : κ → Cache
  /-- How many questions were answered so far. -/
  asked : Nat
  /-- The functions that were started, the last one first: for which key, and when. -/
  started : List (Option Key × Millis)

/-- What is left to chance after so many questions. -/
structure Chance (κ : Type) where
  /-- The token that is drawn next. -/
  token : Nat → String
  /-- How many milliseconds pass. -/
  passes : Nat → Nat
  /-- Which records a cache loses. -/
  loses : Nat → κ → Record → Bool

/-- A call, and how its function ends if it is started. -/
structure Errand (κ : Type) where
  Result : Type
  call : Call κ Result
  outcome : Except Failure Result

namespace Office

/-- An office that is opened with a ledger, and with a cache of so many records for everybody. -/
def opened (now : Millis) (store : Ledger.Store) (capacity : κ → Nat) : Office κ :=
  ⟨now, store, fun i => .empty (capacity i), 0, []⟩

def setCache (s : Office κ) (i : κ) (cache : Cache) : Office κ :=
  { s with caches := Function.update s.caches i cache }

@[simp] theorem setCache_self (s : Office κ) (i : κ) (cache : Cache) :
    (s.setCache i cache).caches i = cache := Function.update_self ..

/-- Some milliseconds later. -/
def wait (s : Office κ) (millis : Nat) : Office κ := { s with now := s.now + millis }

/-- What happens between two questions. -/
def pass (chance : Chance κ) (s : Office κ) : Office κ where
  now := s.now + chance.passes s.asked
  store := s.store
  caches i := (s.caches i).lose (chance.loses s.asked i)
  asked := s.asked + 1
  started := s.started

end Office

namespace Errand

variable (v : Errand κ)

/-- The answer to a question of a call. -/
def reply (token : String) (s : Office κ) : (q : Request) → Answer v.Result q × Office κ
  | .now => (s.now, s)
  | .cached k =>
    let found := (s.caches v.call.cache).get (secondsOf s.now) k
    (found.1, s.setCache v.call.cache found.2)
  | .keep r =>
    ((), s.setCache v.call.cache ((s.caches v.call.cache).put (secondsOf s.now) r))
  | .forget k => ((), s.setCache v.call.cache ((s.caches v.call.cache).erase k))
  | .ledger q =>
    let answered := s.store.answer s.now token q
    (answered.1, { s with store := answered.2 })
  | .start => ((), { s with started := (v.call.key?, s.now) :: s.started })
  | .finish => (v.outcome, s)
  | .note _ => ((), s)

/-- Answers a question, whereupon time passes. -/
def answer (chance : Chance κ) (q : Request) (s : Office κ) : Answer v.Result q × Office κ :=
  let replied := v.reply (chance.token s.asked) s q
  (replied.1, replied.2.pass chance)

/-- Serves a call. -/
def serve (chance : Chance κ) (s : Office κ) : Ending v.Result × Office κ :=
  v.call.talk.answerBy (m := StateM (Office κ)) (v.answer chance) s

end Errand

/-- Serves some calls one after the other, each some time after the one before. -/
def Office.after (chance : Chance κ) (history : List (Nat × Errand κ)) (s : Office κ) : Office κ :=
  history.foldl (fun s x => (x.2.serve chance (s.wait x.1)).2) s

/-! ### What a call keeps -/

variable {chance : Chance κ} {s : Office κ} {v : Errand κ} {k : Key}

/-- A ledger and a cache tell what a call may be told. -/
theorem Errand.told_reply (sound : s.store.Sound) (token : String) (q : Request) :
    Call.told q (v.reply token s q).1 := by
  cases q with
  | cached k => exact fun r hr => (Cache.get_some hr).2
  | ledger q =>
    cases q with
    | claim r => exact Ledger.Store.claim_answered sound s.now token r
    | find k =>
      intro r hr
      rw [show (v.reply token s (.ledger (.find k))).1 = s.store.find? s.now k from
        Ledger.Store.find_answered s.store s.now token k] at hr
      exact Ledger.Store.key_of_find sound hr
    | complete r => exact Ledger.Store.complete_answered sound s.now token r
    | remove k => exact Ledger.Store.remove_answered s.store s.now token k
  | _ => trivial

theorem Errand.sound_reply (sound : s.store.Sound) (token : String) (q : Request) :
    (v.reply token s q).2.store.Sound := by
  cases q with
  | ledger q => exact sound.answer s.now token q
  | _ => exact sound

/-- What a cache is left with that was asked. -/
theorem Errand.cache_cached (v : Errand κ) (token : String) (s : Office κ) (k : Key) :
    (v.reply token s (.cached k)).2.caches v.call.cache =
      ((s.caches v.call.cache).get (secondsOf s.now) k).2 := Office.setCache_self ..

theorem Errand.lacks_forget (v : Errand κ) (token : String) (s : Office κ) (k : Key) :
    ((v.reply token s (.forget k)).2.caches v.call.cache).Lacks k := by
  show ((s.setCache _ _).caches _).Lacks k
  rw [Office.setCache_self]
  exact Cache.lacks_erase _ k

theorem Errand.now_reply (v : Errand κ) (token : String) (s : Office κ) (q : Request) :
    (v.reply token s q).2.now = s.now := by cases q <;> rfl

omit [DecidableEq κ] in
theorem Office.now_pass (chance : Chance κ) (s : Office κ) : s.now ≤ (s.pass chance).now :=
  Int.le_add_of_nonneg_right (Int.natCast_nonneg _)

variable (s v) in
/-- What a call keeps from a state of the office on: every move, and the passing of time. -/
structure Errand.Keeps (chance : Chance κ) (kept : Office κ → Stop v.Result → Prop) : Prop where
  begins : kept s v.call.departs
  move : ∀ token q (s' : Office κ) stop stop', s'.store.Sound → s.now ≤ s'.now → kept s' stop →
    v.call.Move stop q (v.reply token s' q).1 stop' → kept (v.reply token s' q).2 stop'
  pass : ∀ (s' : Office κ) stop, s'.store.Sound → kept s' stop → kept (s'.pass chance) stop

/-- **What a call keeps holds when it has come to its end.** -/
theorem Errand.served {kept : Office κ → Stop v.Result → Prop} (sound : s.store.Sound)
    (h : v.Keeps s chance kept) :
    (v.serve chance s).2.store.Sound ∧ s.now ≤ (v.serve chance s).2.now ∧
      ∃ stop, kept (v.serve chance s).2 stop ∧ v.call.arrives stop (v.serve chance s).1 := by
  have answers : ∀ q (s' : Office κ) stop,
      (s'.store.Sound ∧ s.now ≤ s'.now ∧ kept s' stop) → v.call.mayAsk stop q →
        Call.told q (v.answer chance q s').1 ∧ (v.answer chance q s').2.store.Sound ∧
        s.now ≤ (v.answer chance q s').2.now ∧
        kept (v.answer chance q s').2 (stop.after q (v.answer chance q s').1) := by
    rintro q s' stop ⟨sound', hnow, hk⟩ hq
    have hsound := Errand.sound_reply (v := v) sound' (chance.token s'.asked) q
    have htold : Call.told q (v.reply (chance.token s'.asked) s' q).1 :=
      Errand.told_reply sound' _ q
    refine ⟨htold, hsound, Int.le_trans ?_ (Office.now_pass chance _),
      h.pass _ _ hsound (h.move _ q s' stop _ sound' hnow hk (hq.move htold))⟩
    rw [Errand.now_reply]
    exact hnow
  obtain ⟨stop, ⟨hsound, hnow, hkept⟩, harrives⟩ := (talk_route v.call).answered
    (fun (s' : Office κ) stop => s'.store.Sound ∧ s.now ≤ s'.now ∧ kept s' stop)
    ⟨sound, Int.le_refl _, h.begins⟩ answers
  exact ⟨hsound, hnow, stop, hkept, harrives⟩

theorem Errand.keeps_nothing (chance : Chance κ) : v.Keeps s chance fun _ _ => True :=
  ⟨trivial, fun _ _ _ _ _ _ _ _ _ => trivial, fun _ _ _ _ => trivial⟩

theorem Errand.sound_serve (sound : s.store.Sound) (chance : Chance κ) (v : Errand κ) :
    (v.serve chance s).2.store.Sound := (Errand.served sound (keeps_nothing chance)).1

theorem Errand.now_serve (sound : s.store.Sound) : s.now ≤ (v.serve chance s).2.now :=
  (Errand.served sound (keeps_nothing chance)).2.1

/-- What every call keeps holds after any number of calls. -/
theorem Office.after_keeps (kept : Office κ → Prop) (sound : s.store.Sound) (h0 : kept s)
    (chance : Chance κ) (history : List (Nat × Errand κ))
    (waits : ∀ s millis, s.store.Sound → kept s → kept (s.wait millis))
    (serves : ∀ x ∈ history, ∀ s, s.store.Sound → kept s → kept (x.2.serve chance s).2) :
    (s.after chance history).store.Sound ∧ kept (s.after chance history) := by
  induction history generalizing s with
  | nil => exact ⟨sound, h0⟩
  | cons x rest ih =>
    have hwait := waits s x.1 sound h0
    have hserve := serves x List.mem_cons_self (s.wait x.1) sound hwait
    exact ih (Errand.sound_serve (s := s.wait x.1) sound chance x.2) hserve
      fun y hy => serves y (List.mem_cons_of_mem x hy)

theorem Office.sound_after (sound : s.store.Sound) (chance : Chance κ)
    (history : List (Nat × Errand κ)) :
    (s.after chance history).store.Sound :=
  (Office.after_keeps (fun _ => True) sound trivial chance history (fun _ _ _ _ => trivial)
    fun _ _ _ _ _ => trivial).1

omit [DecidableEq κ] in
/-- The key of a call is a derived one. -/
theorem derived_of_key? {α : Type} {c : Call κ α} (h : c.key? = some k) :
    Ledger.Fields.Derived k := by
  obtain ⟨payload, -, hd⟩ := Call.key?_eq_some h
  exact ⟨_, payload, hd⟩

theorem Office.mem_setCache {i j : κ} {cache : Cache} {r : Record}
    (h : r ∈ ((s.setCache i cache).caches j).records) :
    r ∈ (s.caches j).records ∨ j = i ∧ r ∈ cache.records := by
  by_cases hj : j = i
  · subst hj
    rw [setCache_self] at h
    exact .inr ⟨rfl, h⟩
  · refine .inl ?_
    rwa [show (s.setCache i cache).caches j = s.caches j from Function.update_of_ne hj ..] at h

/-- A reply brings nothing into a cache but a record to be kept. -/
theorem Errand.mem_caches_reply {q : Request} {token : String} {i : κ} {r : Record}
    (h : r ∈ ((v.reply token s q).2.caches i).records) :
    r ∈ (s.caches i).records ∨ q = .keep r := by
  cases q with
  | cached k' =>
    rcases Office.mem_setCache h with hmem | ⟨rfl, hmem⟩
    · exact .inl hmem
    · exact .inl (Cache.mem_get hmem)
  | keep r' =>
    rcases Office.mem_setCache h with hmem | ⟨rfl, hmem⟩
    · exact .inl hmem
    · rcases Cache.mem_put hmem with ⟨rfl, -⟩ | hmem
      · exact .inr rfl
      · exact .inl hmem
  | forget k' =>
    rcases Office.mem_setCache h with hmem | ⟨rfl, hmem⟩
    · exact .inl hmem
    · exact .inl (Cache.mem_erase hmem)
  | _ => exact .inl h

/-- A call about another key brings no record of the key into a cache. -/
theorem Errand.lacks_reply {stop stop' : Stop v.Result} {q : Request} {i : κ} {token : String}
    (move : v.call.Move stop q (v.reply token s q).1 stop') (hne : v.call.key? ≠ some k)
    (h : (s.caches i).Lacks k) : ((v.reply token s q).2.caches i).Lacks k := by
  intro r hr hkey
  rcases Errand.mem_caches_reply hr with hmem | rfl
  · exact h r hmem hkey
  · exact hne (hkey ▸ move.keep_key)

/-! ### A call whose key is open to claims -/

/-- The function of the key was started, as the only one since the office was in that state. -/
def Office.Starts (s : Office κ) (k : Key) (s' : Office κ) : Prop :=
  ∃ t, s'.started = (some k, t) :: s.started

/-- What holds at the stops of a run whose key is open to claims: it is not kept from starting
its function, and has the function's own result. -/
def Errand.Unhindered (v : Errand κ) (s : Office κ) (k : Key) (s' : Office κ) :
    Stop v.Result → Prop
  | .looking | .missed => s'.store = s.store ∧ s'.started = s.started ∧
      (v.call.engine.caches = true → ∀ r ∈ (s'.caches v.call.cache).records, r.key = k →
        r.isExpired (secondsOf s.now) = true)
  | .granted claim => claim.key = k ∧ s'.started = s.started
  | .running claim => claim.key = k ∧ s.Starts k s'
  | .ended claim outcome => claim.key = k ∧ s.Starts k s' ∧ outcome = v.outcome
  | .completed _ a => s.Starts k s' ∧ v.outcome = .ok a
  | .removed _ f | .forgotten _ f => s.Starts k s' ∧ v.outcome = .error f
  | _ => False

theorem secondsOf_le {now later : Millis} (h : now ≤ later) : secondsOf now ≤ secondsOf later :=
  Int.ediv_le_ediv (by decide) h

theorem Errand.Unhindered.move {s' : Office κ} {stop stop' : Stop v.Result} {q : Request}
    {token : String} (h : v.Unhindered s k s' stop) (isOpen : s.store.Open s.now k)
    (hk : v.call.key? = some k) (hnow : s.now ≤ s'.now)
    (move : v.call.Move stop q (v.reply token s' q).1 stop') :
    v.Unhindered s k (v.reply token s' q).2 stop' := by
  have own : ∀ {k'}, v.call.key? = some k' → k = k' :=
    fun hk' => Option.some.inj (hk.symm.trans hk')
  generalize ha : (v.reply token s' q).1 = a at move
  cases move with
  | now => exact h
  | note => exact h
  | retry hgives =>
    obtain ⟨r, rfl⟩ | ⟨err, rfl⟩ := hgives
    · exact h.elim
    · exact h.elim
  | found hcaches hk' =>
    -- a record that is found has not expired, but all there are had expired before
    obtain rfl := own hk'
    obtain ⟨-, -, hexpired⟩ := h
    obtain ⟨hmem, hkey⟩ := Cache.get_some ha
    have hover := Record.isExpired_later (hexpired hcaches _ hmem hkey) (secondsOf_le hnow)
    rw [Cache.get_unexpired ha] at hover
    cases hover
  | missed hcaches hk' =>
    obtain ⟨hstore, hstarted, hexpired⟩ := h
    refine ⟨hstore, hstarted, fun _ r hr => ?_⟩
    rw [Errand.cache_cached] at hr
    exact hexpired hcaches r (Cache.mem_get hr)
  | granted hclaims hstop =>
    obtain ⟨k', expiry, deadline, hk', rfl⟩ := hclaims
    obtain rfl := own hk'
    obtain rfl | ⟨rfl, -⟩ := hstop
    · exact ⟨rfl, h.2.1⟩
    · exact ⟨rfl, h.2.1⟩
  | denied hclaims hstop =>
    obtain ⟨k', expiry, deadline, hk', rfl⟩ := hclaims
    obtain rfl := own hk'
    have hstore : s'.store = s.store := by
      obtain rfl | ⟨rfl, -⟩ := hstop
      · exact h.1
      · exact h.1
    have granted := isOpen s'.now token ⟨k, .inProgress, some expiry, deadline, none,
      Record.nonEmptyHash (some v.call.digest)⟩ hnow rfl
    rw [← hstore] at granted
    cases granted.symm.trans ha
  | keepCompleted => exact h
  | starts =>
    obtain ⟨hkey, hstarted⟩ := h
    refine ⟨hkey, s'.now, ?_⟩
    show (v.call.key?, s'.now) :: s'.started = _
    rw [hk, hstarted]
  | ends =>
    obtain ⟨hkey, hstarts⟩ := h
    exact ⟨hkey, hstarts, ha.symm⟩
  | completed =>
    obtain ⟨-, hstarts, houtcome⟩ := h
    exact ⟨hstarts, houtcome.symm⟩
  | removed =>
    obtain ⟨-, hstarts, houtcome⟩ := h
    exact ⟨hstarts, houtcome.symm⟩
  | forgotten => exact h
  | _ => exact h.elim

omit [DecidableEq κ] in
theorem Errand.Unhindered.pass {s' : Office κ} {stop : Stop v.Result}
    (h : v.Unhindered s k s' stop) : v.Unhindered s k (s'.pass chance) stop := by
  have kept : s'.store = s.store ∧ s'.started = s.started ∧
      (v.call.engine.caches = true → ∀ r ∈ (s'.caches v.call.cache).records, r.key = k →
        r.isExpired (secondsOf s.now) = true) →
      (s'.pass chance).store = s.store ∧ (s'.pass chance).started = s.started ∧
      (v.call.engine.caches = true → ∀ r ∈ ((s'.pass chance).caches v.call.cache).records,
        r.key = k → r.isExpired (secondsOf s.now) = true) := by
    rintro ⟨hstore, hstarted, hexpired⟩
    exact ⟨hstore, hstarted, fun hcaches r hr => hexpired hcaches r (Cache.mem_lose hr)⟩
  cases stop with
  | looking => exact kept h
  | missed => exact kept h
  | _ => exact h

/-- **A run starts its function if its key is open to claims and its cache has no record in force,
and it returns what the function does if that can be stored.** -/
theorem Errand.starts_of_open {enc : Encoding v.Result} {left : Option Nat}
    (sound : s.store.Sound) (isOpen : s.store.Open s.now k)
    (uncached : v.call.engine.caches = true → ∀ r ∈ (s.caches v.call.cache).records,
      r.key = k → r.isExpired (secondsOf s.now) = true)
    (enabled : v.call.engine.settings.disabled = false) (ht : v.call.task = .run enc left)
    (hk : v.call.key? = some k) :
    s.Starts k (v.serve chance s).2 ∧ ∀ a text, v.outcome = .ok a →
      enc.store ⟨k, v.call.engine.functionName⟩ a = .ok text →
        (v.serve chance s).1 = .returned (.ok a) := by
  have keeps : v.Keeps s chance (v.Unhindered s k) := by
    refine ⟨?_, fun token q s' stop stop' _ hnow h move => h.move isOpen hk hnow move,
      fun _ _ _ h => h.pass⟩
    rw [Call.departs_run ht enabled]
    exact ⟨rfl, rfl, uncached⟩
  obtain ⟨-, -, stop, h, harrives⟩ := Errand.served sound keeps
  obtain ⟨result, hresult, hsettles, hapart⟩ := harrives.of_run ht
  rw [hresult]
  cases stop with
  | looking =>
    rw [hsettles.1] at hk
    cases hk
  | ended claim outcome =>
    obtain ⟨rfl, hstarts, rfl⟩ := h
    refine ⟨hstarts, fun a text ha htext => ?_⟩
    rw [ha] at hsettles
    obtain ⟨err, herr, -⟩ := hsettles
    rw [herr] at htext
    cases htext
  | completed claim a =>
    obtain ⟨hstarts, houtcome⟩ := h
    refine ⟨hstarts, fun a' text ha _ => ?_⟩
    obtain rfl : a = a' := Except.ok.inj (houtcome.symm.trans ha)
    exact congrArg Ending.returned hsettles
  | removed claim f =>
    refine ⟨h.1, fun a text ha => ?_⟩
    cases h.2.symm.trans ha
  | forgotten claim f =>
    refine ⟨h.1, fun a text ha => ?_⟩
    cases h.2.symm.trans ha
  | missed => exact hsettles.elim
  | granted claim => exact hsettles.elim
  | running claim => exact hsettles.elim
  | _ => exact h.elim

/-! ### Charging an order -/

/-- The engine of a function that charges an order; the order stays in progress if the card is
declined. -/
def declining (caches : Bool) : Engine :=
  { charging 0 with
    settings := { (charging 0).settings with nonRetryable := [fun f => f.kind == "card_declined"] }
    caches := caches }

/-- A run for the order, with a second to go. -/
def charged (caches : Bool) (outcome : Except Failure String) : Errand Unit :=
  ⟨String, ⟨declining caches, (), .ok (.string "order"), .run plain (some 1000)⟩, outcome⟩

theorem charged_key (caches : Bool) (outcome : Except Failure String) :
    (charged caches outcome).call.key? = some order := by
  show (charge 0 .delete).key? = some order
  decide +kernel

def declined : Except Failure String := .error ⟨"card_declined", "no"⟩

def timedOut : Except Failure String := .error ⟨"timeout", "slow"⟩

/-- No time passes while a call is served, and no record is lost. -/
def quiet : Chance Unit := ⟨fun _ => "token", fun _ => 0, fun _ _ _ => false⟩

end Engine

end AtMostOnce
