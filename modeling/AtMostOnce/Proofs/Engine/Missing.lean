/-
Records that are said to be missing.

A ledger may answer any request with the error that there is no record.  To a look at the
record in the way of a claim that is an answer like others: the attempt gives up, and the run
tries again as long as it may.  To a claim, a completion or a removal it is a failure, and the
run reports it as it is.  So a run ends with this error exactly if one of these three was
answered so (`run_itemNotFound_iff`).

Nothing comes after such an answer: an attempt that has got it is neither at ease nor may it
give up (`Move.missing`), so the stand that it leads to is the last one.
-/
import AtMostOnce.Proofs.Engine.Blame
import AtMostOnce.Proofs.Engine.Resuming

namespace AtMostOnce.Engine

open Dialogue

variable {α : Type} {e : Engine} {enc : Encoding α} {most : Nat} {p p' : Progress α}
  {x : Exchange Request (Answer α)} {said : Trace Request (Answer α)}

/-! ### Stands of a missing record -/

/-- The key for which a ledger tells that there is no record, though it was not asked for one. -/
def missing? : Exchange Request (Answer α) → Option Key
  | ⟨.ledger (.claim _), .error (.itemNotFound k)⟩ => some k
  | ⟨.ledger (.complete _), .error (.itemNotFound k)⟩ => some k
  | ⟨.ledger (.remove _), .error (.itemNotFound k)⟩ => some k
  | _ => none

/-- The key whose record is missing, where an attempt has been told so. -/
def Stand.missing? : Stand α → Option Key
  | .failed (.itemNotFound k) => some k
  | .stored _ _ (.error (.itemNotFound k)) => some k
  | .dropped _ _ (.error (.itemNotFound k)) => some k
  | _ => none

theorem missing?_of_deed? (h : x.question.deed? = none) : missing? x = none := by
  unfold missing?
  split
  · cases h
  · cases h
  · cases h
  · rfl

theorem asks_of_missing? {k : Key} (h : missing? x = some k) :
    ∃ q, x.question = .ledger q := by
  unfold missing? at h
  split at h
  · exact ⟨_, rfl⟩
  · exact ⟨_, rfl⟩
  · exact ⟨_, rfl⟩
  · cases h

/-- **An attempt ends with a missing record exactly where it has been told of one.** -/
theorem Stand.concludes_itemNotFound {s : Stand α} {result : Except Error α}
    (h : s.concludes e enc result) (k : Key) :
    result = .error (.itemNotFound k) ↔ s.missing? = some k := by
  have passed : ∀ {err : Error} {doing : String}, result = .error (err.orPersistence doing) →
      (result = .error (.itemNotFound k) ↔ err = .itemNotFound k) := by
    rintro err doing rfl
    constructor
    · intro hresult
      exact eq_of_orPersistence (Except.error.inj hresult) (by simp)
    · rintro rfl
      rfl
  have replayed : ∀ {context r}, e.replay enc context r ≠ .error (.itemNotFound k) := by
    intro context r hreplay
    obtain ⟨reason, hreason⟩ := replay_error hreplay
    cases hreason
  cases s with
  | seeking =>
    obtain ⟨v, err, hderive, rfl⟩ := h
    simp [Stand.missing?, derive_eq_error hderive]
  | hit r =>
    rcases h with rfl | ⟨context, rfl⟩
    · simp [Stand.missing?]
    · simp [Stand.missing?, replayed]
  | failed err =>
    obtain ⟨doing, hresult⟩ := h
    rw [passed hresult]
    cases err <;> simp [Stand.missing?]
  | lost err =>
    cases err with
    | itemNotFound k' =>
      obtain ⟨reason, rfl⟩ := h
      simp [Stand.missing?]
    | _ =>
      obtain ⟨doing, hresult⟩ := h
      rw [passed hresult]
      simp [Stand.missing?]
  | met r =>
    rcases h with rfl | ⟨context, rfl⟩ | ⟨k', rfl⟩ | ⟨reason, rfl⟩
    · simp [Stand.missing?]
    · simp [Stand.missing?, replayed]
    · simp [Stand.missing?]
    · simp [Stand.missing?]
  | spent =>
    obtain ⟨reason, rfl⟩ := h
    simp [Stand.missing?]
  | ended claim outcome =>
    cases outcome with
    | ok a =>
      obtain ⟨context, err, -, rfl⟩ := h
      simp [Stand.missing?, EncodingError.toError]
    | error f =>
      obtain ⟨-, rfl⟩ := h
      simp [Stand.missing?]
  | stored claim a answer =>
    cases answer with
    | ok _ =>
      obtain rfl : result = .ok a := h
      simp [Stand.missing?]
    | error err =>
      obtain ⟨doing, hresult⟩ := h
      rw [passed hresult]
      cases err <;> simp [Stand.missing?]
  | dropped claim f answer =>
    cases answer with
    | ok _ =>
      obtain rfl : result = .error (.handler f) := h
      simp [Stand.missing?]
    | error err =>
      obtain ⟨doing, hresult⟩ := h
      rw [passed hresult]
      cases err <;> simp [Stand.missing?]
  | apart =>
    rcases h with ⟨a, rfl⟩ | ⟨f, rfl⟩
    · simp [Stand.missing?]
    · simp [Stand.missing?]
  | _ => exact h.elim

theorem Stand.not_missing_of_ease {s : Stand α} (h : s.isAtEase) : s.missing? = none := by
  cases s with
  | stored claim a answer =>
    cases answer with
    | ok _ => rfl
    | error err => exact h.elim
  | dropped claim f answer =>
    cases answer with
    | ok _ => rfl
    | error err => exact h.elim
  | failed err => exact h.elim
  | _ => rfl

/-- **Nothing comes after a missing record, and what an exchange tells of one is where the attempt
stands then.** -/
theorem Move.missing (h : Move e enc most p x p') :
    p.stand.missing? = none ∧ p'.stand.missing? = missing? x := by
  cases h with
  | idles ease hx => exact ⟨Stand.not_missing_of_ease ease, by
      rw [Stand.not_missing_of_ease ease, missing?_of_deed? hx]⟩
  | @fails n b r err => exact ⟨rfl, by cases err <;> rfl⟩
  | @completes n b claim a r answer =>
    refine ⟨rfl, ?_⟩
    rcases answer with err | _
    · cases err <;> rfl
    · rfl
  | @removes n b claim f k answer =>
    refine ⟨rfl, ?_⟩
    rcases answer with err | _
    · cases err <;> rfl
    · rfl
  | retries up =>
    refine ⟨?_, rfl⟩
    obtain ⟨reason, hc⟩ := up
    rw [Option.eq_none_iff_forall_ne_some]
    intro k hk
    cases (Stand.concludes_itemNotFound hc k).mpr hk
  | _ => exact ⟨rfl, rfl⟩

/-! ### Runs -/

/-- The stand of a run tells of a missing record if anything that was said does. -/
def Recalls (said : Trace Request (Answer α)) (p : Progress α) : Prop :=
  ∀ k, (∃ x ∈ said, missing? x = some k) ↔ p.stand.missing? = some k

theorem Recalls.step (h : Recalls said p) (hm : Move e enc most p x p') :
    Recalls (said ++ [x]) p' := by
  intro k
  obtain ⟨hbefore, hafter⟩ := hm.missing
  have earlier : ¬ ∃ y ∈ said, missing? y = some k := by
    rw [h k, hbefore]
    nofun
  rw [hafter]
  constructor
  · rintro ⟨y, hy, hmissing⟩
    rcases List.mem_append.mp hy with hy | hy
    · exact absurd ⟨y, hy, hmissing⟩ earlier
    · rwa [List.mem_singleton.mp hy] at hmissing
  · intro hmissing
    exact ⟨x, by simp, hmissing⟩

/-- After a look for the record that found none, the run tries again before it does anything else,
or it is still where that look has led it. -/
def Unfound (k : Key) (said : Trace Request (Answer α)) (p : Progress α) : Prop :=
  (deeds said).head? = some .retry ∨ deeds said = [] ∧ p.stand = .lost (.itemNotFound k)

theorem Unfound.step {k : Key} (h : Unfound k said p) (hm : Move e enc most p x p') :
    Unfound k (said ++ [x]) p' := by
  unfold Unfound
  rw [deeds_concat]
  rcases h with hretry | ⟨hnone, hstand⟩
  · exact .inl (by simp [hretry])
  · rw [hnone]
    cases hm with
    | idles ease hx => exact .inr ⟨by simp [hx], hstand⟩
    | retries => exact .inl rfl
    | _ => cases hstand

section

variable {payload : Payload} {left : Option Nat} {rest : Action α (Except Error α)}
  {result : Except Error α}

theorem recalls_initial : Recalls [] (.initial (α := α) e) := by
  intro k
  unfold Progress.initial
  split <;> simp [Stand.missing?]

/-- A run that asks its ledger makes attempts. -/
theorem run_eq_attempts {q : Ledger.Request}
    (h : (e.run enc payload left).Leads said rest) (hx : x ∈ said)
    (hq : x.question = .ledger q) :
    ∃ v, payload = .ok v ∧
      e.run enc payload left = e.attempts enc v left e.settings.maxRetries 0 false := by
  rw [run.eq_def] at h ⊢
  by_cases hdis : e.settings.disabled = true
  · -- without records only the start and the end of the function are asked for
    exfalso
    rw [if_pos hdis] at h
    cases h with
    | here => cases hx
    | on _ _ h =>
      cases h with
      | here =>
        obtain rfl := List.mem_singleton.mp hx
        cases hq
      | on _ outcome h =>
        have hsaid : x = ⟨.start, ()⟩ ∨ x = ⟨.finish, outcome⟩ := by
          cases outcome <;> cases h <;> simpa using hx
        rcases hsaid with rfl | rfl <;> cases hq
  · rw [if_neg hdis] at h ⊢
    cases payload with
    | error reason =>
      cases h
      cases hx
    | ok v => exact ⟨v, rfl, rfl⟩

/-- A run whose look for the record finds none tries again, or it ends with an inconsistent state
and has no attempts left. -/
theorem unfound_retried {before after : Trace Request (Answer α)} {k k' : Key}
    (h : (e.run enc payload left).Leads
      (before ++ ⟨.ledger (.find k), .error (.itemNotFound k')⟩ :: after) (done result)) :
    (deeds after).head? = some .retry ∨
      ∃ reason as, result = .error (.inconsistentState reason) ∧
        Attempts.OfRun e enc payload left
          (before ++ ⟨.ledger (.find k), .error (.itemNotFound k')⟩ :: after) as ∧
        as.length = e.settings.maxRetries + 1 := by
  obtain ⟨v, rfl, hrun⟩ :=
    run_eq_attempts h (x := ⟨.ledger (.find k), .error (.itemNotFound k')⟩) (by simp) rfl
  rw [hrun] at h
  obtain ⟨as, has, -, exhausted⟩ := attempts_divide _ _ _ _ h
  obtain ⟨d, hbefore, hafter⟩ := h.of_append
  obtain ⟨-, hd⟩ := (keeps_attempts e.settings.maxRetries 0 0 false (Nat.zero_add _)).holds
    (fun _ _ => True) hbefore (fun _ _ => trivial) trivial fun _ _ _ _ _ _ => trivial
  generalize (e.discipline enc e.settings.maxRetries).phase _ before = p at hd
  cases hafter with
  | on q a hafter =>
    obtain ⟨hq, hnext⟩ := hd
    have hstand : p.stand = .denied := hq
    obtain ⟨hunfound, hends⟩ := (hnext _ trivial).holds (Unfound k') hafter
      (fun _ _ => trivial) (.inr ⟨rfl, rfl⟩) fun _ _ _ hu hq _ => hu.step (move hq)
    rcases hunfound with hretry | ⟨-, hlost⟩
    · exact .inl hretry
    · right
      rw [follows_done, hlost] at hends
      obtain ⟨reason, rfl⟩ := hends
      obtain ⟨hlength, -⟩ := exhausted reason rfl
      exact ⟨reason, as, rfl, has, hlength⟩

/-- **A run ends with a missing record exactly if a claim, a completion or a removal was answered
so.**  If the look at a record in the way is answered so, the run tries again, or it ends with an
inconsistent state and has made all its attempts. -/
theorem run_itemNotFound_iff (h : (e.run enc payload left).Leads said (done result)) :
    (∀ k, result = .error (.itemNotFound k) ↔ ∃ x ∈ said, missing? x = some k) ∧
      ∀ before after k k',
        said = before ++ ⟨.ledger (.find k), .error (.itemNotFound k')⟩ :: after →
          (deeds after).head? = some .retry ∨
            ∃ reason as, result = .error (.inconsistentState reason) ∧
              Attempts.OfRun e enc payload left said as ∧
              as.length = e.settings.maxRetries + 1 := by
  constructor
  · intro k
    obtain ⟨hrecalls, hends⟩ := (keeps_run payload left).holds Recalls h (fun _ _ => trivial)
      recalls_initial fun _ _ _ hr hq _ => hr.step (move hq)
    rcases hends with ⟨reason, rfl, rfl⟩ | hconcludes
    · -- without a value in the payload there is no attempt, and so no ledger is asked
      refine ⟨nofun, ?_⟩
      rintro ⟨x, hx, hmissing⟩
      obtain ⟨q, hq⟩ := asks_of_missing? hmissing
      obtain ⟨v, hv, -⟩ := run_eq_attempts h hx hq
      cases hv
    · rw [hrecalls k]
      exact Stand.concludes_itemNotFound hconcludes k
  · rintro before after k k' rfl
    exact unfound_retried h

end

/-- A ledger that once tells at such a request that there is no record for the order. -/
def denies (kind : Ledger.Kind) : Ledger.Faulty :=
  Ledger.Faulty.empty.push kind (.itemNotFound order)

/-- A run whose claim finds no record says so, and one whose record vanishes while another is made
in its place does not. -/
theorem run_itemNotFound_of_claim :
    (∃ x ∈ (chargeOver 2 (denies .claim)).1, missing? x = some order) ∧
      ¬ ∃ x ∈ (chargeOver 1 lostRecord).1, missing? x = some order := by
  have tells : ∀ n l, (chargeOver n l).2 = .error (.itemNotFound order) ↔ _ := fun n l =>
    (run_itemNotFound_iff (leads_tell (faultyAnswer (.ok "charged"))
      ((charging n).run plain (.ok (.string "order")) none) l)).1 order
  have hclaim : (chargeOver 2 (denies .claim)).2 = .error (.itemNotFound order) := by
    decide +kernel
  refine ⟨(tells 2 _).mp hclaim, fun hmissing => ?_⟩
  have hlost : (chargeOver 1 lostRecord).2 =
      .error (.inconsistentState s!"record for {order} vanished after a conflicting write") := by
    decide +kernel
  cases hlost.symm.trans ((tells 1 _).mpr hmissing)

/-- Each of the three requests brings the missing record to light. -/
theorem missing_escapes :
    (chargeOver 2 (denies .claim)).2 = .error (.itemNotFound order) ∧
      (chargeOver 2 (denies .complete)).2 = .error (.itemNotFound order) ∧
      (declinedOver (denies .remove)).2 = .error (.itemNotFound order) := by
  refine ⟨?_, ?_, ?_⟩
  · decide +kernel
  · decide +kernel
  · decide +kernel

end AtMostOnce.Engine
