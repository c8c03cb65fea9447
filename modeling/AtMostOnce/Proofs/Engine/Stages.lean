/-
When the noted stages tell the truth.

An attempt notes how far it has come, and the last stage is how it ended: it was completed,
or it failed, or the record was rolled back.  `Exit` lists the ways out of an attempt with
the stages that are noted and what was done about the function.

On each of them the stages tell the truth, but for one.  A record from the cache is replayed
after the attempt has noted that it is completed; if that fails, the last stage is wrong
(`attempts_truthful_iff`).  A record from the ledger is replayed before.
-/
import AtMostOnce.Proofs.Engine.Account
import AtMostOnce.Proofs.Engine.Discipline

namespace AtMostOnce

/-- Does an attempt come no further than to this stage? -/
def Stage.isLast : Stage → Bool
  | .completed | .failed | .rolledBack => true
  | _ => false

namespace Engine

open Dialogue

variable {α : Type}

/-! ### Stages and what is done about the function -/

def Act.stage? : Act α → Option Stage
  | .comes stage => some stage
  | _ => none

/-- The stages in an account. -/
def stages (l : List (Act α)) : List Stage := l.filterMap Act.stage?

/-- Is this an act of the function, or one that gives its record up? -/
def Act.isOwn : Act α → Bool
  | .starts | .ends _ | .removes _ => true
  | _ => false

/-- What an account says about the function and its record. -/
def own (l : List (Act α)) : List (Act α) := l.filter Act.isOwn

theorem own_append (l more : List (Act α)) : own (l ++ more) = own l ++ own more :=
  List.filter_append ..

theorem mem_own {x : Act α} (hx : x.isOwn = true) {l : List (Act α)} : x ∈ own l ↔ x ∈ l := by
  simp [own, hx]

/-- What is done about the function in some order is done so in the account. -/
theorem sublist_own {some l : List (Act α)} (hsome : ∀ x ∈ some, x.isOwn = true) :
    some.Sublist (own l) ↔ some.Sublist l := by
  constructor
  · intro h
    exact h.trans List.filter_sublist
  · intro h
    have hfiltered := h.filter Act.isOwn
    rwa [List.filter_eq_self.mpr hsome] at hfiltered

/-! ### Ways out of an attempt -/

/-- The stages that are noted, what is done about the function, and the result. -/
inductive Exit (e : Engine) : List Stage → List (Act α) → Except Error α → Prop
  | keyless {err} (foreign : err.isHandler = false) : Exit e [] [] (.error err)
  | refused {err} (foreign : err.isHandler = false) : Exit e [.notStarted] [] (.error err)
  | hit {a} : Exit e [.notStarted, .returningCachedResult, .completed] [] (.ok a)
  | unclaimed {err} (foreign : err.isHandler = false) :
    Exit e [.notStarted, .savingInProgress] [] (.error err)
  | met {err} (foreign : err.isHandler = false) :
    Exit e [.notStarted, .savingInProgress, .failed] [] (.error err)
  | undecoded {err} (foreign : err.isHandler = false) :
    Exit e [.notStarted, .savingInProgress, .returningCachedResult, .failed] [] (.error err)
  | replayed {a} :
    Exit e [.notStarted, .savingInProgress, .returningCachedResult, .completed] [] (.ok a)
  | stored {a} : Exit e [.notStarted, .savingInProgress, .wrappedCallRunning, .completed]
      [.starts, .ends (.ok a)] (.ok a)
  | unstored {a err} (foreign : err.isHandler = false) :
    Exit e [.notStarted, .savingInProgress, .wrappedCallRunning] [.starts, .ends (.ok a)]
      (.error err)
  | rolledBack {f} (rolls : e.settings.rollsBack f = true) :
    Exit e [.notStarted, .savingInProgress, .wrappedCallRunning, .rolledBack]
      [.starts, .ends (.error f), .removes (.ok ())] (.error (.handler f))
  | stuck {f err err'} (rolls : e.settings.rollsBack f = true)
    (foreign : err'.isHandler = false) :
    Exit e [.notStarted, .savingInProgress, .wrappedCallRunning]
      [.starts, .ends (.error f), .removes (.error err)] (.error err')
  | kept {f} (keeps : e.settings.rollsBack f = false) :
    Exit e [.notStarted, .savingInProgress, .wrappedCallRunning, .failed]
      [.starts, .ends (.error f)] (.error (.handler f))

variable {e : Engine} {enc : Encoding α} {v : Json.Value} {k : Key} {digest : String}
  {started started' : Bool} {l : List (Act α)} {result : Except Error α}

theorem isHandler_replay {context : EncodingContext} {r : Record} {err : Error}
    (h : e.replay enc context r = .error err) : err.isHandler = false := by
  obtain ⟨reason, rfl⟩ := replay_error h
  rfl

/-- A look at the record in the way has nothing to do with the function. -/
theorem Resolving.exit (h : Resolving e enc k digest l result) : own l = [] ∧
    ((stages l = [] ∧ ∃ err, result = .error err ∧ err.isHandler = false) ∨
      (stages l = [.returningCachedResult] ∧ ∃ err, result = .error err ∧ err.isHandler = false) ∨
      (stages l = [.returningCachedResult, .completed] ∧ ∃ a, result = .ok a)) := by
  cases h with
  | lost foreign => exact ⟨rfl, .inl ⟨rfl, _, rfl, foreign⟩⟩
  | refused => exact ⟨rfl, .inl ⟨rfl, _, rfl, rfl⟩⟩
  | settles hacc settling =>
    cases settling with
    | expired => exact ⟨rfl, .inl ⟨rfl, _, rfl, rfl⟩⟩
    | overdue => exact ⟨rfl, .inl ⟨rfl, _, rfl, rfl⟩⟩
    | busy => exact ⟨rfl, .inl ⟨rfl, _, rfl, rfl⟩⟩
    | replays => exact ⟨rfl, .inr (.inr ⟨rfl, _, rfl⟩)⟩
    | spoilt _ undecoded => exact ⟨rfl, .inr (.inl ⟨rfl, _, rfl, isHandler_replay undecoded⟩)⟩

theorem Calling.exit (h : Calling e enc k l result) :
    Exit e (.notStarted :: .savingInProgress :: stages l) (own l) result := by
  cases h with
  | returned finishing =>
    cases finishing with
    | unstorable => exact .unstored rfl
    | unsaved foreign => exact .unstored foreign
    | saved => exact .stored
  | failed failing =>
    cases failing with
    | rolledBack rolls => exact .rolledBack rolls
    | stuck rolls foreign => exact .stuck rolls foreign
    | kept keeps => exact .kept keeps

theorem Claiming.exit {p : Except Error α × Bool} (h : Claiming e enc k digest started l p) :
    Exit e (.notStarted :: .savingInProgress :: stages l) (own l) p.1 := by
  cases h with
  | fails foreign => exact .unclaimed foreign
  | spent => exact .unclaimed rfl
  | calls calling => exact calling.exit
  | replays resolving =>
    obtain ⟨hown, ⟨-, err, herr, -⟩ | ⟨-, err, herr, -⟩ | ⟨hstages, -⟩⟩ := resolving.exit
    · cases herr
    · cases herr
    · simp only [stages, own, List.filterMap_cons, List.filter_cons, Act.stage?, Act.isOwn] at *
      rw [hown, hstages]
      exact .replayed
  | meets resolving =>
    obtain ⟨hown, hresult⟩ := resolving.exit
    simp only [stages, own, List.filterMap_append, List.filter_append, List.cons_append,
      List.filterMap_cons, List.filter_cons, Act.stage?, Act.isOwn] at *
    rw [hown]
    rcases hresult with ⟨hstages, err, herr, foreign⟩ | ⟨hstages, err, herr, foreign⟩ |
      ⟨-, a, herr⟩
    · cases herr
      rw [hstages]
      exact .met foreign
    · cases herr
      rw [hstages]
      exact .undecoded foreign
    · cases herr

/-- The cache is not asked once the key is to be claimed. -/
theorem Claiming.not_looks {p : Except Error α × Bool} (h : Claiming e enc k digest started l p)
    (found : Option Record) : .looks found ∉ l := by
  cases h with
  | fails => simp
  | spent => simp
  | calls calling =>
    cases calling with
    | returned finishing => cases finishing <;> simp
    | failed failing => cases failing <;> simp
  | replays resolving =>
    cases resolving with
    | settles _ settling =>
      cases settling
      simp
  | meets resolving =>
    cases resolving with
    | lost => simp
    | refused => simp
    | settles _ settling => cases settling <;> simp

/-- A record from the cache is accepted, but it cannot be replayed. -/
def Spoils (e : Engine) (enc : Encoding α) (payload : Payload) (l : List (Act α)) : Prop :=
  ∃ v k r err, payload = .ok v ∧ e.rule.derive v = .ok k ∧ .looks (some r) ∈ l ∧
    e.check.accepts r (e.check.compute v) = true ∧
    e.replay enc ⟨k, e.functionName⟩ r = .error err

/-- An attempt takes one of the ways out, or it cannot replay a record from the cache. -/
theorem Attempting.exit (h : Attempting e enc v started l (result, started')) :
    Exit e (stages l) (own l) result ∨
      Spoils e enc (.ok v) l ∧ .completed ∈ stages l ∧ own l = [] ∧
        ∃ err, result = .error err ∧ err.isHandler = false := by
  generalize hp : (result, started') = p at h
  cases h with
  | keyless hk =>
    cases hp
    exact .inl (.keyless (isHandler_derive hk))
  | refused =>
    cases hp
    exact .inl (.refused rfl)
  | @hits k r hk hcaches hacc =>
    cases hp
    cases hreplay : e.replay enc ⟨k, e.functionName⟩ r with
    | ok a => exact .inl .hit
    | error err =>
      refine .inr ⟨⟨v, k, r, err, rfl, hk, by simp, hacc, hreplay⟩, ?_, rfl, err, rfl,
        isHandler_replay hreplay⟩
      simp [stages, Act.stage?]
  | claims hk hlook claiming =>
    cases hp
    have hexit := claiming.exit
    rw [hlook]
    cases e.caches <;> exact .inl hexit

/-- An attempt that cannot replay a record from the cache ends so. -/
theorem Attempting.spoils (h : Attempting e enc v started l (result, started'))
    (hspoils : Spoils e enc (.ok v) l) :
    .completed ∈ stages l ∧ ∃ err, result = .error err := by
  obtain ⟨v', k', r', err, hv, hk', hlooks, hacc', hreplay⟩ := hspoils
  cases hv
  generalize hp : (result, started') = p at h
  cases h with
  | keyless => simp at hlooks
  | refused _ _ hrefused =>
    obtain rfl : r' = _ := by simpa using hlooks
    cases hrefused.symm.trans hacc'
  | hits hk =>
    cases hp
    obtain rfl : r' = _ := by simpa using hlooks
    cases hk.symm.trans hk'
    exact ⟨by simp [stages, Act.stage?], err, hreplay⟩
  | claims _ hlook claiming =>
    have hnone := claiming.not_looks (some r')
    rw [hlook] at hlooks
    cases e.caches <;> simp [hnone] at hlooks

/-! ### Truthful attempts -/

/-- The stages of an attempt tell how it went. -/
structure Truthful (s : Settings) (l : List (Act α)) (result : Except Error α) : Prop where
  /-- Nothing is noted after a last stage, so there is one at most. -/
  last : ∀ stage ∈ (stages l).dropLast, stage.isLast = false
  completed : .completed ∈ stages l ↔ ∃ a, result = .ok a
  rolledBack : .rolledBack ∈ stages l ↔
    ∃ f, s.rollsBack f = true ∧ [.ends (.error f), .removes (.ok ())].Sublist l
  failed : .failed ∈ stages l → ∃ err, result = .error err
  running : .wrappedCallRunning ∈ stages l ↔ .starts ∈ l

variable {st : List Stage} {o : List (Act α)}

theorem Exit.last (h : Exit e st o result) : ∀ stage ∈ st.dropLast, stage.isLast = false := by
  cases h <;> simp [Stage.isLast]

theorem Exit.completed_iff (h : Exit e st o result) :
    .completed ∈ st ↔ ∃ a, result = .ok a := by
  cases h <;> simp

theorem Exit.failed (h : Exit e st o result) (hfailed : .failed ∈ st) :
    ∃ err, result = .error err := by
  cases h <;> simp at hfailed ⊢

theorem Exit.running_iff (h : Exit e st o result) : .wrappedCallRunning ∈ st ↔ .starts ∈ o := by
  cases h <;> simp

/-- The record is removed after the function has failed only in a rollback. -/
theorem Exit.rolledBack_iff (h : Exit e st o result) :
    .rolledBack ∈ st ↔ ∃ f, e.settings.rollsBack f = true ∧
      [.ends (.error f), .removes (.ok ())].Sublist o := by
  cases h with
  | @rolledBack f rolls =>
    have follows : List.Sublist [.ends (.error f), .removes (.ok ())]
        [.starts, .ends (.error f), (.removes (.ok ()) : Act α)] := List.sublist_cons_self ..
    exact ⟨fun _ => ⟨f, rolls, follows⟩, fun _ => by simp⟩
  | _ => simp [List.sublist_cons_iff]

theorem Exit.truthful (h : Exit e (stages l) (own l) result) : Truthful e.settings l result where
  last := h.last
  completed := h.completed_iff
  rolledBack := by
    rw [h.rolledBack_iff]
    refine exists_congr fun f => and_congr_right fun _ => sublist_own ?_
    simp [Act.isOwn]
  failed := h.failed
  running := h.running_iff.trans (mem_own rfl)

/-- **The stages of an attempt tell how it went, unless it cannot replay a record from the
cache.** -/
theorem Attempting.truthful_iff (h : Attempting e enc v started l (result, started')) :
    Truthful e.settings l result ↔ ¬ Spoils e enc (.ok v) l := by
  constructor
  · intro truthful hspoils
    obtain ⟨hcompleted, err, herr⟩ := h.spoils hspoils
    obtain ⟨a, ha⟩ := truthful.completed.mp hcompleted
    cases herr.symm.trans ha
  · intro hsound
    rcases h.exit with hexit | ⟨hspoils, -⟩
    · exact hexit.truthful
    · exact absurd hspoils hsound

/-! ### Runs -/

variable {said : Trace Request (Answer α)} {payload : Payload} {left : Option Nat}
  {as : List (Attempt α)}

/-- A run divides into attempts. -/
theorem run_divides {rest : Action α (Except Error α)} (enabled : e.settings.disabled = false)
    (h : (e.run enc payload left).Leads said rest) :
    ∃ as, Attempts.OfRun e enc payload left said as := by
  rw [run.eq_def, if_neg (by simp [enabled])] at h
  cases payload with
  | error reason =>
    cases h
    exact ⟨[], rfl, rfl⟩
  | ok v =>
    obtain ⟨as, has, -⟩ := attempts_divide _ _ _ _ h
    exact ⟨as, has⟩

/-- Each attempt of a run is one. -/
theorem Attempts.leads {n : Nat} (h : Attempts e enc v left n started said as) :
    ∀ a ∈ as, ∃ n started, (e.attempt enc v left n started).Leads a.said a.rest := by
  induction h with
  | last h => exact List.forall_mem_singleton.mpr ⟨_, _, h⟩
  | again h _ ih => exact List.forall_mem_cons.mpr ⟨⟨_, _, h⟩, ih⟩

/-- **When the noted stages tell the truth.**  A run divides into attempts, whatever it is answered.
The stages of one that has ended tell how it went exactly if it did not get a record from the cache
that it accepted and could not replay. -/
theorem attempts_truthful_iff {rest : Action α (Except Error α)}
    (enabled : e.settings.disabled = false) (h : (e.run enc payload left).Leads said rest) :
    (∃ as, Attempts.OfRun e enc payload left said as) ∧
      ∀ as, Attempts.OfRun e enc payload left said as → ∀ a ∈ as, ∀ result used,
        a.rest = done (result, used) →
          (Truthful e.settings (acts a.said) result ↔ ¬ Spoils e enc payload (acts a.said)) := by
  constructor
  · exact run_divides enabled h
  · intro as has a ha result used hrest
    cases payload with
    | error reason =>
      obtain ⟨-, rfl⟩ := has
      cases ha
    | ok v =>
      obtain ⟨n, started, hleads⟩ := has.leads a ha
      rw [hrest] at hleads
      exact (tells_attempt.of_leads hleads).truthful_iff

/-! ### A record that gets lost -/

/-- An engine without a cache has nothing to spoil. -/
theorem Attempting.not_spoils (h : Attempting e enc v started l (result, started'))
    (uncached : e.caches = false) : ¬ Spoils e enc payload l := by
  rintro ⟨-, -, r, -, -, -, hlooks, -⟩
  generalize hp : (result, started') = p at h
  cases h with
  | keyless => simp at hlooks
  | refused _ hcaches => simp [uncached] at hcaches
  | hits _ hcaches => simp [uncached] at hcaches
  | claims _ hlook claiming =>
    rw [hlook, uncached] at hlooks
    simp [claiming.not_looks] at hlooks

/-- The record gets lost after the function was called, and both attempts note how they went. -/
theorem lostRecord_truthful :
    ∃ as, Attempts.OfRun (charging 1) plain (.ok (.string "order")) none
        (chargeOver 1 lostRecord).1 as ∧
      ∀ a ∈ as, ∀ result used, a.rest = done (result, used) →
        Truthful (charging 1).settings (acts a.said) result := by
  obtain ⟨⟨as, has⟩, truthful⟩ := attempts_truthful_iff rfl
    (leads_tell (faultyAnswer (.ok "charged"))
      ((charging 1).run plain (.ok (.string "order")) none) lostRecord)
  refine ⟨as, has, fun a ha result used hrest => (truthful as has a ha result used hrest).mpr ?_⟩
  obtain ⟨n, started, hleads⟩ := has.leads a ha
  rw [hrest] at hleads
  exact (tells_attempt.of_leads hleads).not_spoils rfl

/-! ### A result that is forgotten -/

def remembering : Engine := { charging 0 with caches := true }

/-- Results that are stored and cannot be read again. -/
def unreadable : Encoding String := ⟨fun _ a => .ok a, fun _ _ => .error ⟨.replaying, "unreadable"⟩⟩

/-- Answers of a site around a function that returns. -/
def answerCharged (q : Request) (s : Site Unit) : Answer String q × Site Unit :=
  s.reply () (.ok "charged") q

/-- The site after the order was charged. -/
def siteCharged : Site Unit :=
  ((remembering.run plain (.ok (.string "order")) none).answerBy
    (m := StateM (Site Unit)) answerCharged ⟨0, [], fun _ => .empty 4⟩).2

/-- The attempt of the next run for the order. -/
def nextAttempt : Trace Request (Answer String) × (Except Error String × Bool) :=
  (remembering.attempt unreadable (.string "order") none 0 false).tell answerCharged siteCharged

/-- The attempt notes that it is completed, and fails. -/
theorem completed_in_vain :
    (remembering.run unreadable (.ok (.string "order")) none).Leads nextAttempt.1
        (done nextAttempt.2.1) ∧
      Attempts.OfRun remembering unreadable (.ok (.string "order")) none nextAttempt.1
        [⟨nextAttempt.1, done nextAttempt.2⟩] ∧
      stages (acts nextAttempt.1) = [.notStarted, .returningCachedResult, .completed] ∧
      nextAttempt.2.1 = .error (.serialization "failed to replay stored result: unreadable") ∧
      ¬ Truthful remembering.settings (acts nextAttempt.1) nextAttempt.2.1 := by
  have hleads : (remembering.attempt unreadable (.string "order") none 0 false).Leads
      nextAttempt.1 (done nextAttempt.2) := leads_tell _ _ _
  have hstages : stages (acts nextAttempt.1) =
      [.notStarted, .returningCachedResult, .completed] := by decide +kernel
  have hresult : nextAttempt.2.1 =
      .error (.serialization "failed to replay stored result: unreadable") := by decide +kernel
  refine ⟨?_, .last hleads, hstages, hresult, fun truthful => ?_⟩
  · have hrun := hleads.bind (f := fun p => done p.1) (.here (done nextAttempt.2.1))
    rwa [List.append_nil] at hrun
  · have hcompleted : .completed ∈ stages (acts nextAttempt.1) := by simp [hstages]
    obtain ⟨a, ha⟩ := truthful.completed.mp hcompleted
    cases hresult.symm.trans ha

end Engine

end AtMostOnce
