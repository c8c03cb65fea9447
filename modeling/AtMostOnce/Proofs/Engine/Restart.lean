/-
A fresh start after a record was given up.

A run whose function fails retryably, and a deletion, leave nothing under their key, neither
in the ledger nor in their cache (`Errand.left_nothing`).  Calls about other keys put
nothing there (`Errand.still_nothing`), so the key is open to claims when the next run of it
comes, and that run starts its function.

On a server of fields the lock of an earlier takeover may still be there.  It is not in the
way: a claim goes for the lock only when a record gives way to it, and there is none.
-/
import AtMostOnce.Proofs.Engine.Office

namespace AtMostOnce.Engine

variable {κ α : Type} [DecidableEq κ] {chance : Chance κ} {s : Office κ} {v : Errand κ} {k : Key}
  {c : Call κ α}

/-- Nothing is kept under the key, neither in the ledger nor in the cache of a call, if it has
one. -/
def Office.HasNothing (s : Office κ) (c : Call κ α) (k : Key) : Prop :=
  s.store.Vacant s.now k ∧ (c.engine.caches = true → (s.caches c.cache).Lacks k)

omit [DecidableEq κ] in
theorem Office.HasNothing.wait (h : s.HasNothing c k) (sound : s.store.Sound) (millis : Nat) :
    (s.wait millis).HasNothing c k :=
  ⟨h.1.later sound (Int.le_add_of_nonneg_right (Int.natCast_nonneg _)), h.2⟩

omit [DecidableEq κ] in
theorem Office.HasNothing.pass (h : s.HasNothing c k) (sound : s.store.Sound) :
    (s.pass chance).HasNothing c k :=
  ⟨h.1.later sound (Office.now_pass chance s), fun hcaches => (h.2 hcaches).lose⟩

/-! ### Giving a record up -/

/-- Did the call give the record of its key up? -/
def Errand.givesUp (v : Errand κ) : Ending v.Result → Bool
  | .returned (.error (.handler f)) => v.call.engine.settings.rollsBack f
  | .deleted (.ok _) => true
  | _ => false

/-- What holds at the stops of a call that gives its record up. -/
def Errand.Cleared (v : Errand κ) (k : Key) (s : Office κ) : Stop v.Result → Prop
  | .removed _ _ | .cleared => s.store.Vacant s.now k
  | .forgotten _ _ | .wiped => s.HasNothing v.call k
  | _ => True

theorem Errand.Cleared.move {stop stop' : Stop v.Result} {q : Request} {token : String}
    (h : v.Cleared k s stop) (sound : s.store.Sound) (hk : v.call.key? = some k)
    (move : v.call.Move stop q (v.reply token s q).1 stop') :
    v.Cleared k (v.reply token s q).2 stop' := by
  have own : ∀ {k'}, v.call.key? = some k' → k = k' :=
    fun hk' => Option.some.inj (hk.symm.trans hk')
  generalize (v.reply token s q).1 = a at move
  cases move with
  | now => exact h
  | note => exact h
  | removed hk' =>
    obtain rfl := own hk'
    exact Ledger.Store.vacant_removed sound s.now token k
  | cleared hk' =>
    obtain rfl := own hk'
    exact Ledger.Store.vacant_removed sound s.now token k
  | forgotten _ hk' =>
    obtain rfl := own hk'
    exact ⟨h, fun _ => Errand.lacks_forget v token s k⟩
  | wiped _ hk' =>
    obtain rfl := own hk'
    exact ⟨h, fun _ => Errand.lacks_forget v token s k⟩
  | _ => trivial

omit [DecidableEq κ] in
theorem Errand.Cleared.pass {stop : Stop v.Result} (sound : s.store.Sound)
    (h : v.Cleared k s stop) : v.Cleared k (s.pass chance) stop := by
  cases stop with
  | removed claim f => exact h.later sound (Office.now_pass chance s)
  | cleared => exact h.later sound (Office.now_pass chance s)
  | forgotten claim f => exact Office.HasNothing.pass h sound
  | wiped => exact Office.HasNothing.pass h sound
  | _ => trivial

omit [DecidableEq κ] in
/-- A call that has given its record up has cleared the cache too, if there is one. -/
theorem Errand.Cleared.hasNothing {ending : Ending v.Result} {stop : Stop v.Result}
    (h : v.Cleared k s stop) (enabled : v.call.engine.settings.disabled = false)
    (harrives : v.call.arrives stop ending) (gave : v.givesUp ending = true) :
    s.HasNothing v.call k := by
  have uncached (vacant : s.store.Vacant s.now k) (h : v.call.engine.caches = false) :
      s.HasNothing v.call k := ⟨vacant, fun hcaches => absurd hcaches (by rw [h]; nofun)⟩
  match ending, gave with
  | .deleted (.ok k'), _ =>
    obtain ⟨-, -, rfl | ⟨rfl, hcaches⟩⟩ := harrives
    · exact h
    · exact uncached h hcaches
  | .returned (.error (.handler f)), gave =>
    obtain ⟨enc, left, -, hsettles, hapart⟩ := harrives
    have hstop : stop ≠ .apart := fun hstop => by cases enabled.symm.trans (hapart hstop)
    obtain ⟨claim, ⟨rfl, hkeeps⟩ | ⟨rfl, hcaches⟩ | rfl⟩ := hsettles.of_handler hstop
    · cases hkeeps.symm.trans gave
    · exact uncached h hcaches
    · exact h

/-- **A call that gives its record up leaves nothing under its key.** -/
theorem Errand.left_nothing (sound : s.store.Sound)
    (enabled : v.call.engine.settings.disabled = false) (hk : v.call.key? = some k)
    (gave : v.givesUp (v.serve chance s).1 = true) :
    (v.serve chance s).2.HasNothing v.call k := by
  have keeps : v.Keeps s chance (v.Cleared k) := by
    refine ⟨?_, fun token q s' stop stop' sound' _ h move => h.move sound' hk move,
      fun s' stop sound' h => h.pass sound'⟩
    unfold Call.departs
    split
    · split <;> trivial
    · trivial
  obtain ⟨-, -, stop, h, harrives⟩ := Errand.served sound keeps
  exact h.hasNothing enabled harrives gave

/-! ### Nothing remains nothing -/

/-- **A call about another key leaves nothing where there was nothing.** -/
theorem Errand.still_nothing (sound : s.store.Sound) (hk : Ledger.Fields.Derived k)
    (hne : v.call.key? ≠ some k) (h : s.HasNothing c k) :
    (v.serve chance s).2.HasNothing c k := by
  have keeps : v.Keeps s chance fun s' _ => s'.HasNothing c k := by
    refine ⟨h, ?_, fun s' _ sound' h => h.pass sound'⟩
    rintro token q s' stop stop' sound' - ⟨vacant, lacks⟩ move
    refine ⟨?_, fun hcaches => Errand.lacks_reply move hne (lacks hcaches)⟩
    cases q with
    | ledger q =>
      have hkey := move.ledger_key
      exact vacant.answer_other sound' hk (derived_of_key? hkey) (fun hr => hne (hr ▸ hkey)) token
    | _ => exact vacant
  obtain ⟨-, -, -, hends, -⟩ := Errand.served sound keeps
  exact hends

theorem Office.HasNothing.after (h : s.HasNothing c k) (sound : s.store.Sound)
    (hk : Ledger.Fields.Derived k) (chance : Chance κ) {others : List (Nat × Errand κ)}
    (hne : ∀ x ∈ others, x.2.call.key? ≠ some k) : (s.after chance others).HasNothing c k :=
  (Office.after_keeps (fun s => s.HasNothing c k) sound h chance others
    (fun _ millis sound h => h.wait sound millis)
    fun x hx _ sound h => Errand.still_nothing sound hk (hne x hx) h).2

/-! ### The next run -/

/-- **After a rollback or a deletion nothing is left under the key, and the next run of it starts
its function and returns what that does.**

Whatever calls came before, a call of an engine that is not disabled gives its record up.  Any
calls about other keys may come in between, each with an engine of its own. -/
theorem fresh_start {first : Office κ} (sound : first.store.Sound)
    {history : List (Nat × Errand κ)} {gap : Nat}
    (reached : s = (first.after chance history).wait gap)
    (enabled : v.call.engine.settings.disabled = false) (hk : v.call.key? = some k)
    (gave : v.givesUp (v.serve chance s).1 = true) :
    (v.serve chance s).2.HasNothing v.call k ∧
      ∀ (others : List (Nat × Errand κ)) (pause : Nat) (w : Errand κ) (enc : Encoding w.Result)
        (budget : Option Nat) (found : Office κ),
        (∀ x ∈ others, x.2.call.key? ≠ some k) →
        found = ((v.serve chance s).2.after chance others).wait pause →
        w.call.engine = v.call.engine → w.call.cache = v.call.cache →
        w.call.task = .run enc budget → w.call.key? = some k →
        found.Starts k (w.serve chance found).2 ∧
          ∀ a text, w.outcome = .ok a →
            enc.store ⟨k, w.call.engine.functionName⟩ a = .ok text →
              (w.serve chance found).1 = .returned (.ok a) := by
  have sound' : s.store.Sound := by
    rw [reached]
    exact Office.sound_after sound chance history
  have nothing := Errand.left_nothing sound' enabled hk gave
  refine ⟨nothing, ?_⟩
  intro others pause w enc budget found hothers hfound hengine hcache htask hkey
  have soundLeft := Errand.sound_serve sound' chance v
  have soundOthers := Office.sound_after soundLeft chance others
  obtain ⟨vacant, lacks⟩ := (nothing.after soundLeft (derived_of_key? hk) chance hothers).wait
    soundOthers pause
  rw [← hfound] at vacant lacks
  have soundFound : found.store.Sound := by
    rw [hfound]
    exact soundOthers
  refine Errand.starts_of_open soundFound (vacant.isOpen soundFound) ?_
    (by rw [hengine]; exact enabled) htask hkey
  rw [hengine, hcache]
  exact fun hcaches r hr hrk => absurd hrk (lacks hcaches r hr)

/-! ### A start beside a lock

The first run leaves its record in progress.  The second one takes it over, and its function
fails for good measure.
-/

/-- When the second run comes. -/
def beforeRollback : Office Unit :=
  ((Office.opened 0 (.fields .initial .empty) fun _ => 4).after quiet
    [(0, charged true declined)]).wait 2000

/-- When the third run comes. -/
def afterRollback : Office Unit :=
  (((charged true timedOut).serve quiet beforeRollback).2.after quiet []).wait 1000

/-- The third run starts its function, although the lock is still there. -/
theorem fresh_start_beside_lock :
    afterRollback.store.lock? afterRollback.now order ≠ none ∧
      afterRollback.Starts order ((charged true (.ok "paid")).serve quiet afterRollback).2 ∧
      ((charged true (.ok "paid")).serve quiet afterRollback).1 = .returned (.ok "paid") := by
  have sound : (Office.opened 0 (.fields .initial .empty) fun _ : Unit => 4).store.Sound :=
    FieldStore.Memory.sound_empty
  have gave : (charged true timedOut).givesUp
      ((charged true timedOut).serve quiet beforeRollback).1 = true := by decide +kernel
  obtain ⟨-, next⟩ := fresh_start sound (rfl : beforeRollback = _) rfl (charged_key true _) gave
  obtain ⟨starts, returns⟩ := next [] 1000 (charged true (.ok "paid")) plain (some 1000)
    afterRollback (List.forall_mem_nil _) rfl rfl rfl rfl (charged_key true _)
  exact ⟨by decide +kernel, starts, returns "paid" "paid" rfl rfl⟩

end AtMostOnce.Engine
