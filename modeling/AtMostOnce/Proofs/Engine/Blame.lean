/-
Whose failure a run reports.

A ledger may fail with whatever error it likes, one that passes for a failure of the function
included; a run reports it as the ledger's.  So a run fails with the failure of its function
exactly if that was started and failed so, and its record was to be kept or could be removed
(`run_handler_iff`).

An attempt whose record could not be removed may be followed by others.  None of these
starts the function again, so what has become of it does not change (`Running.fate`).
-/
import AtMostOnce.Proofs.Engine.Stages

namespace AtMostOnce.Engine

open Dialogue

variable {α : Type}

/-! ### What becomes of the function -/

/-- What is done about the function in a run, and the result. -/
inductive Fate (e : Engine) : List (Act α) → Except Error α → Prop
  | unstarted {result} (foreign : ∀ f, result ≠ .error (.handler f)) : Fate e [] result
  | returned {a result} (foreign : ∀ f, result ≠ .error (.handler f)) :
    Fate e [.starts, .ends (.ok a)] result
  | rolledBack {f} (rolls : e.settings.rollsBack f = true) :
    Fate e [.starts, .ends (.error f), .removes (.ok ())] (.error (.handler f))
  | stuck {f err result} (rolls : e.settings.rollsBack f = true)
    (foreign : ∀ f, result ≠ .error (.handler f)) :
    Fate e [.starts, .ends (.error f), .removes (.error err)] result
  | kept {f} (keeps : e.settings.rollsBack f = false) :
    Fate e [.starts, .ends (.error f)] (.error (.handler f))

variable {e : Engine} {enc : Encoding α} {v : Json.Value} {k : Key} {digest : String}
  {started started' : Bool} {retries : Nat} {l : List (Act α)} {result : Except Error α}

theorem ne_handler {err : Error} (foreign : err.isHandler = false) (f : Failure) :
    (.error err : Except Error α) ≠ .error (.handler f) := by
  rintro ⟨⟩
  cases foreign

/-- The result tells of a failure of the function exactly if that is its fate. -/
theorem Fate.handler_iff {o : List (Act α)} (h : Fate e o result) (f : Failure) :
    result = .error (.handler f) ↔ List.Sublist [.starts, .ends (.error f)] o ∧
      (e.settings.rollsBack f = false ∨
        List.Sublist [.ends (.error f), .removes (.ok ())] o) := by
  cases h with
  | unstarted foreign => simp [foreign]
  | returned foreign => simp [foreign, List.sublist_cons_iff]
  | @rolledBack f' rolls =>
    constructor
    · intro hresult
      cases hresult
      exact ⟨List.sublist_append_left [Act.starts, .ends (.error f)] _,
        .inr (List.sublist_cons_self ..)⟩
    · intro ⟨hfailed, _⟩
      have hmem := hfailed.subset (List.mem_cons_of_mem _ List.mem_cons_self)
      obtain rfl : f = f' := by simpa using hmem
      rfl
  | @stuck f' err _ rolls foreign =>
    refine iff_of_false (foreign f) ?_
    intro ⟨hfailed, hgaveUp⟩
    have hmem := hfailed.subset (List.mem_cons_of_mem _ List.mem_cons_self)
    obtain rfl : f = f' := by simpa using hmem
    rcases hgaveUp with keeps | hremoved
    · cases rolls.symm.trans keeps
    · have hmem := hremoved.subset (List.mem_cons_of_mem _ List.mem_cons_self)
      simp at hmem
  | @kept f' keeps =>
    constructor
    · intro hresult
      cases hresult
      exact ⟨List.Sublist.refl _, .inl keeps⟩
    · intro ⟨hfailed, _⟩
      have hmem := hfailed.subset (List.mem_cons_of_mem _ List.mem_cons_self)
      obtain rfl : f = f' := by simpa using hmem
      rfl

theorem Exit.fate {st : List Stage} {o : List (Act α)} (h : Exit e st o result) :
    Fate e o result := by
  cases h with
  | keyless foreign => exact .unstarted (ne_handler foreign)
  | refused foreign => exact .unstarted (ne_handler foreign)
  | hit => exact .unstarted (by simp)
  | unclaimed foreign => exact .unstarted (ne_handler foreign)
  | met foreign => exact .unstarted (ne_handler foreign)
  | undecoded foreign => exact .unstarted (ne_handler foreign)
  | replayed => exact .unstarted (by simp)
  | stored => exact .returned (by simp)
  | unstored foreign => exact .returned (ne_handler foreign)
  | rolledBack rolls => exact .rolledBack rolls
  | stuck rolls foreign => exact .stuck rolls (ne_handler foreign)
  | kept keeps => exact .kept keeps

theorem Attempting.fate (h : Attempting e enc v started l (result, started')) :
    Fate e (own l) result := by
  rcases h.exit with hexit | ⟨-, -, hown, err, rfl, foreign⟩
  · exact hexit.fate
  · rw [hown]
    exact .unstarted (ne_handler foreign)

/-! ### Attempts that do not start the function -/

/-- An attempt that does not start the function does nothing about it. -/
theorem Claiming.own_eq_nil (h : Claiming e enc k digest started l (result, started'))
    (unstarted : started = true ∨ started' = false) : own l = [] := by
  generalize hp : (result, started') = p at h
  cases h with
  | fails => rfl
  | spent => rfl
  | calls =>
    cases hp
    simp at unstarted
  | replays resolving => exact resolving.exit.1
  | meets resolving =>
    rw [own_append]
    show own _ ++ [] = []
    rw [List.append_nil]
    exact resolving.exit.1

theorem Attempting.own_eq_nil (h : Attempting e enc v started l (result, started'))
    (unstarted : started = true ∨ started' = false) : own l = [] := by
  generalize hp : (result, started') = p at h
  cases h with
  | keyless => rfl
  | refused => rfl
  | hits => rfl
  | claims _ hlook claiming =>
    subst hp
    have hnone := claiming.own_eq_nil unstarted
    rw [hlook]
    cases e.caches <;> exact hnone

/-- That the function was started is not forgotten. -/
theorem Attempting.started_of (h : Attempting e enc v started l (result, started'))
    (hstarted : started = true) : started' = true := by
  generalize hp : (result, started') = p at h
  cases h with
  | keyless => cases hp; exact hstarted
  | refused => cases hp; exact hstarted
  | hits => cases hp; exact hstarted
  | claims _ _ claiming =>
    subst hp
    generalize hp : (result, started') = p at claiming
    cases claiming with
    | fails => cases hp; exact hstarted
    | spent => cases hp; rfl
    | calls => cases hp; rfl
    | replays => cases hp; exact hstarted
    | meets => cases hp; exact hstarted

/-- **What becomes of the function in a run, whatever that is answered.**  Nothing is done about it
in a run that goes on after the function was started. -/
theorem Running.fate (h : Running e enc v retries started l result) :
    Fate e (own l) result ∧ (started = true → own l = []) := by
  induction h with
  | last attempting =>
    exact ⟨attempting.fate, fun hstarted => attempting.own_eq_nil (.inl hstarted)⟩
  | @again retries started l err started' more result attempting retryable rest ih =>
    obtain ⟨later, silent⟩ := ih
    have hown : own (l ++ .retries :: more) = own l ++ own more := own_append ..
    rw [hown]
    by_cases hl : own l = []
    · rw [hl]
      exact ⟨later, fun hstarted => silent (attempting.started_of hstarted)⟩
    · have hflags : started = false ∧ started' = true := by
        by_contra hflags
        refine hl (attempting.own_eq_nil ?_)
        cases started <;> cases started' <;> simp at hflags ⊢
      obtain ⟨rfl, rfl⟩ := hflags
      have foreign : ∀ f, result ≠ .error (.handler f) := by
        intro f hresult
        rw [silent rfl] at later
        cases later with
        | unstarted foreign => exact foreign f hresult
      refine ⟨?_, by simp⟩
      rw [silent rfl, List.append_nil]
      have before := attempting.fate
      generalize own l = o at before hl
      generalize hresult : (.error err : Except Error α) = result' at before
      cases before with
      | unstarted => exact absurd rfl hl
      | returned => exact .returned foreign
      | rolledBack => cases hresult; cases retryable
      | stuck rolls => exact .stuck rolls foreign
      | kept => cases hresult; cases retryable

/-! ### Runs -/

/-- **A run fails with a failure of its function exactly if that was started and failed so, and its
record was to be kept or was removed then.**  Nothing is supposed of the answers: the ledger may
fail with any error, and the cache may hold anything. -/
theorem run_handler_iff {payload : Payload} {left : Option Nat}
    {said : Trace Request (Answer α)} (enabled : e.settings.disabled = false)
    (h : (e.run enc payload left).Leads said (done result)) (f : Failure) :
    result = .error (.handler f) ↔
      List.Sublist [.starts, .ends (.error f)] (acts said) ∧
        (e.settings.rollsBack f = false ∨
          List.Sublist [.ends (.error f), .removes (.ok ())] (acts said)) := by
  have fate : Fate e (own (acts said)) result := by
    rcases (tells_run enabled).of_leads h with ⟨reason, -, hacts, rfl⟩ | ⟨v, -, running⟩
    · rw [hacts]
      exact .unstarted (by simp)
    · exact running.fate.1
  rw [fate.handler_iff f, sublist_own (by simp [Act.isOwn]), sublist_own (by simp [Act.isOwn])]

/-! ### Failures in disguise -/

/-- A run for the order whose card is declined, over a ledger that fails on demand. -/
def declinedOver (l : Ledger.Faulty) : Trace Request (Answer String) × Except Error String :=
  ((charging 1).run plain (.ok (.string "order")) none).tell
    (faultyAnswer (.error ⟨"card_declined", "no"⟩)) l

/-- The removal fails with an error that passes for a failure of the function. -/
def disguised : Ledger.Faulty :=
  Ledger.Faulty.empty.push .remove (.handler ⟨"timeout", "slow"⟩)

/-- The failure of the function is reported if its record can be removed.  If it cannot, no failure
of the function is, and what the ledger answers is not reported as one. -/
theorem declinedOver_blames :
    ((declinedOver .empty).2 = .error (.handler ⟨"card_declined", "no"⟩) ∧
      List.Sublist [.ends (.error ⟨"card_declined", "no"⟩), .removes (.ok ())]
        (acts (declinedOver .empty).1)) ∧
    (declinedOver disguised).2 = .error
        (.persistence "Failed to delete record from idempotency store" ⟨"timeout", "slow"⟩) ∧
      ∀ f, ¬ (List.Sublist [.starts, .ends (.error f)] (acts (declinedOver disguised).1) ∧
        ((charging 1).settings.rollsBack f = false ∨
          List.Sublist [.ends (.error f), .removes (.ok ())]
            (acts (declinedOver disguised).1))) := by
  have blames : ∀ l f, (declinedOver l).2 = .error (.handler f) ↔ _ := fun l f =>
    run_handler_iff rfl (leads_tell (faultyAnswer (.error ⟨"card_declined", "no"⟩))
      ((charging 1).run plain (.ok (.string "order")) none) l) f
  have removed : (declinedOver .empty).2 = .error (.handler ⟨"card_declined", "no"⟩) := by
    decide +kernel
  have stuck : (declinedOver disguised).2 = .error (.persistence
      "Failed to delete record from idempotency store" ⟨"timeout", "slow"⟩) := by decide +kernel
  refine ⟨⟨removed, ?_⟩, stuck, fun f hgaveUp => ?_⟩
  · obtain ⟨-, hgaveUp⟩ := (blames _ _).mp removed
    exact hgaveUp.resolve_left (by decide)
  · cases stuck.symm.trans ((blames _ f).mpr hgaveUp)

end AtMostOnce.Engine
