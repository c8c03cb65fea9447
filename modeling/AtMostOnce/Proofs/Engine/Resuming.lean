/-
What a run does after its function.

A completion or a removal may fail with an inconsistent state.  The run takes that for
its own conflict and starts over although its function has run: it claims the key again,
with nothing left to run.  An attempt that has its claim gives up in no other way
(`Stand.concludes_engaged`), so this is also the only way to a claim or a retry after the
function was started (`run_rests_iff`).
-/
import AtMostOnce.Proofs.Engine.Discipline

namespace AtMostOnce.Engine

open Dialogue

variable {α : Type} {e : Engine} {enc : Encoding α} {most : Nat} {p p' : Progress α}
  {x : Exchange Request (Answer α)} {said : Trace Request (Answer α)}

/-! ### Attempts with a claim -/

/-- Does the attempt have a claim that it was granted, or none to make? -/
def Stand.isEngaged : Stand α → Bool
  | granted _ | announced _ | running _ | ended _ _ | stored _ _ _ | dropped _ _ _ | apart => true
  | _ => false

/-- The answer that a completion or a removal got. -/
def Stand.closed? : Stand α → Option (Except Error Unit)
  | stored _ _ answer | dropped _ _ answer => some answer
  | _ => none

theorem Stand.Told.closed {s : Stand α} {err : Error} (h : s.Told said)
    (hc : s.closed? = some (.error err)) :
    ∃ earlier x, said = earlier ++ [x] ∧ closing? x = some (.error err) := by
  cases s with
  | stored claim a answer =>
    cases hc
    exact h
  | dropped claim f answer =>
    cases hc
    exact h
  | _ => cases hc

/-- An attempt that has a claim ends with an error of the function, of the encoding, or of the
request that was to complete the claim or give it up. -/
theorem Stand.concludes_engaged {s : Stand α} {err : Error} (hs : s.isEngaged = true)
    (h : s.concludes e enc (.error err)) :
    (∃ f, err = .handler f) ∨ (∃ reason, err = .serialization reason) ∨
      ∃ cause doing, s.closed? = some (.error cause) ∧ err = cause.orPersistence doing := by
  cases s with
  | granted claim => exact h.elim
  | announced claim => exact h.elim
  | running claim => exact h.elim
  | ended claim outcome =>
    cases outcome with
    | ok a =>
      obtain ⟨context, cause, -, herr⟩ := h
      cases herr
      exact .inr (.inl ⟨_, rfl⟩)
    | error f =>
      cases h.2
      exact .inl ⟨f, rfl⟩
  | stored claim a answer =>
    cases answer with
    | ok _ => cases h
    | error cause =>
      obtain ⟨doing, herr⟩ := h
      cases herr
      exact .inr (.inr ⟨cause, doing, rfl, rfl⟩)
  | dropped claim f answer =>
    cases answer with
    | ok _ =>
      cases h
      exact .inl ⟨f, rfl⟩
    | error cause =>
      obtain ⟨doing, herr⟩ := h
      cases herr
      exact .inr (.inr ⟨cause, doing, rfl, rfl⟩)
  | apart =>
    obtain ⟨a, herr⟩ | ⟨f, herr⟩ := h
    · cases herr
    · cases herr
      exact .inl ⟨f, rfl⟩
  | _ => cases hs

/-- Only the failure of a ledger is told as another error than it was. -/
theorem eq_of_orPersistence {err err' : Error} {doing : String}
    (h : err.orPersistence doing = err') (hne : ∀ source, err' ≠ .persistence doing source) :
    err = err' := by
  cases err with
  | handler failure => exact absurd h.symm (hne failure)
  | _ => exact h

/-- The request that was to complete a claim or give it up failed with an inconsistent state, the
run had retries left, and it went on. -/
def Thrown (most : Nat) (said : Trace Request (Answer α)) : Prop :=
  ∃ before x after reason, said = before ++ x :: after ∧ after ≠ [] ∧
    closing? x = some (.error (.inconsistentState reason)) ∧
    (deeds before).count .retry < most

theorem Thrown.append (h : Thrown most said) (more : Trace Request (Answer α)) :
    Thrown most (said ++ more) := by
  obtain ⟨before, x, after, reason, rfl, hafter, hx, hleft⟩ := h
  refine ⟨before, x, after ++ more, reason, by simp, ?_, hx, hleft⟩
  exact fun hnil => hafter (List.append_eq_nil_iff.mp hnil).1

/-- After the start of the function nothing is claimed or tried again. -/
def Rests (said : Trace Request (Answer α)) : Prop :=
  (deeds said).Pairwise fun d d' => d = .start → d' ≠ .claim ∧ d' ≠ .retry

instance : Decidable (Rests said) := inferInstanceAs (Decidable (List.Pairwise _ _))

theorem rests_concat (h : Rests said)
    (hx : .start ∈ deeds said → x.question.deed? ≠ some .claim ∧ x.question.deed? ≠ some .retry) :
    Rests (said ++ [x]) := by
  unfold Rests
  rw [deeds_concat, List.pairwise_append]
  refine ⟨h, ?_, ?_⟩
  · cases x.question.deed? with
    | none => exact .nil
    | some d => exact List.pairwise_singleton _ _
  · rintro d hd d' hd' rfl
    rw [Option.mem_toList] at hd'
    rw [hd'] at hx
    simpa using hx hd

/-- A trace along which a run comes to its progress, and what became of it after the start. -/
structure Aftermath (most : Nat) (said : Trace Request (Answer α)) (p : Progress α) : Prop
    extends Course said p where
  /-- Once the function was started, the only way to a stand without a claim is thrown away. -/
  again : p.used = true → p.stand.isEngaged = false → Thrown most said
  rests : Rests said ∨ Thrown most said
  closed : ∀ earlier x a, said = earlier ++ [x] → closing? x = some a → p.stand.closed? = some a

theorem doing_of_closing? {a : Except Error Unit} (h : closing? x = some a) (d : Deed) :
    x.question.doing d = if d = .close then 1 else 0 := by
  unfold closing? at h
  split at h
  · cases d <;> rfl
  · cases d <;> rfl
  · cases h

/-- A run that gives up an attempt after the function has thrown it away. -/
theorem Aftermath.thrown (h : Aftermath most said p) (hused : p.used = true)
    (up : p.stand.givesUp e enc) (left : p.retries < most) {more : Trace Request (Answer α)}
    (hmore : more ≠ []) : Thrown most (said ++ more) := by
  obtain ⟨reason, hc⟩ := up
  cases hs : p.stand.isEngaged with
  | false => exact (h.again hused hs).append more
  | true =>
    rcases Stand.concludes_engaged hs hc with ⟨f, hf⟩ | ⟨r, hr⟩ | ⟨cause, doing, hclosed, herr⟩
    · cases hf
    · cases hr
    · obtain rfl := eq_of_orPersistence herr.symm nofun
      obtain ⟨earlier, x, rfl, hx⟩ := h.told.closed hclosed
      refine ⟨earlier, x, more, reason, by simp, hmore, hx, ?_⟩
      have hcount := h.tally.retries
      rw [count_deeds_concat, doing_of_closing? hx] at hcount
      simp at hcount
      omega

theorem Course.used (h : Course said p) (hs : .start ∈ deeds said) : p.used = true := by
  have hcount := h.tally.starts
  have hpos := List.count_pos_iff.mpr hs
  cases hu : p.used with
  | true => rfl
  | false =>
    rw [hu] at hcount
    rw [hcount] at hpos
    cases hpos

theorem Aftermath.rests_step (h : Aftermath most said p) (hm : Move e enc most p x p') :
    Rests (said ++ [x]) ∨ Thrown most (said ++ [x]) := by
  rcases h.rests with hr | hthrown
  · by_cases hx : .start ∈ deeds said →
      x.question.deed? ≠ some .claim ∧ x.question.deed? ≠ some .retry
    · exact .inl (rests_concat hr hx)
    · right
      rw [Classical.not_imp] at hx
      obtain ⟨hstart, hagain⟩ := hx
      have hused := h.used hstart
      cases hm with
      | retries up left => exact h.thrown hused up left (List.cons_ne_nil _ _)
      | fails | meets | grantsSpent => exact (h.again hused rfl).append _
      | grants => cases hused
      | idles ease hnone =>
        rw [hnone] at hagain
        exact absurd ⟨nofun, nofun⟩ hagain
      | _ => exact absurd ⟨nofun, nofun⟩ hagain
  · exact .inr (hthrown.append [x])

theorem Move.closed {a : Except Error Unit} (hm : Move e enc most p x p')
    (hx : closing? x = some a) : p'.stand.closed? = some a := by
  cases hm with
  | completes | removes => exact hx
  | idles ease hnone =>
    have hclose := doing_of_closing? hx .close
    rw [Request.doing, hnone] at hclose
    cases hclose
  | _ => cases hx

theorem Aftermath.again_step (h : Aftermath most said p) (hm : Move e enc most p x p') :
    p'.used = true → p'.stand.isEngaged = false → Thrown most (said ++ [x]) := by
  cases hm with
  | idles => exact fun hused hs => (h.again hused hs).append [x]
  | retries up left => exact fun hused _ => h.thrown hused up left (List.cons_ne_nil _ _)
  | hits | fails | meets | grantsSpent | finds | loses =>
    exact fun hused _ => (h.again hused rfl).append _
  | _ => exact fun _ hs => nomatch hs

theorem Aftermath.step (h : Aftermath most said p) (hm : Move e enc most p x p') :
    Aftermath most (said ++ [x]) p' where
  toCourse := h.toCourse.step hm
  again := h.again_step hm
  rests := h.rests_step hm
  closed earlier y a hsaid hy := by
    obtain ⟨-, hxy⟩ := List.append_inj' hsaid rfl
    rw [← List.singleton_inj.mp hxy] at hy
    exact hm.closed hy

/-- After a failed completion or removal a run can only try again. -/
theorem Move.retries_of_closed {err : Error} (hm : Move e enc most p x p')
    (hs : p.stand.closed? = some (.error err)) : x.question.deed? = some .retry := by
  cases hm with
  | retries => rfl
  | idles ease hx =>
    obtain ⟨n, b, s⟩ := p
    cases s with
    | stored claim a answer =>
      cases hs
      exact ease.elim
    | dropped claim f answer =>
      cases hs
      exact ease.elim
    | _ => cases hs
  | _ => cases hs

/-! ### Runs -/

section

variable {payload : Payload} {left : Option Nat} {rest : Action α (Except Error α)}

theorem aftermath_initial : Aftermath most [] (.initial (α := α) e) :=
  ⟨course_initial, nofun, .inl .nil, fun _ _ _ h => absurd h (by simp)⟩

theorem run_aftermath (h : (e.run enc payload left).Leads said rest) :
    ∃ p, Aftermath e.settings.maxRetries said p ∧
      rest.Follows (e.discipline enc e.settings.maxRetries) (e.runEnds enc payload) p :=
  ⟨_, (keeps_run payload left).holds (Aftermath e.settings.maxRetries) h (fun _ _ => trivial)
    aftermath_initial fun _ _ _ hc hq _ => hc.step (move hq)⟩

theorem run_aftermath_at {before after : Trace Request (Answer α)}
    (h : (e.run enc payload left).Leads (before ++ x :: after) rest) :
    ∃ p, Aftermath e.settings.maxRetries before p ∧
      p.allows e enc e.settings.maxRetries x.question :=
  ⟨_, (keeps_run payload left).holds_at (Aftermath e.settings.maxRetries) h (fun _ _ => trivial)
    aftermath_initial fun _ _ _ hc hq _ => hc.step (move hq)⟩

theorem start_before_closing {a : Except Error Unit} {before after : Trace Request (Answer α)}
    (h : (e.run enc payload left).Leads (before ++ x :: after) rest) (hx : closing? x = some a) :
    .start ∈ deeds before := by
  obtain ⟨p, hp, hq⟩ := run_aftermath_at h
  obtain ⟨-, -, hdue⟩ := (move hq).counts
  rw [doing_of_closing? hx, doing_of_closing? hx, if_pos rfl, if_neg nofun] at hdue
  have hstarts := hp.tally.starts
  have hcloses := hp.tally.closes
  exact List.count_pos_iff.mp (by omega)

theorem not_rests_of_thrown (h : (e.run enc payload left).Leads said rest)
    (ht : Thrown e.settings.maxRetries said) : ¬ Rests said := by
  obtain ⟨before, x, after, reason, rfl, hafter, hx, -⟩ := ht
  obtain ⟨y, more, rfl⟩ := List.exists_cons_of_ne_nil hafter
  have hstart := start_before_closing h hx
  rw [List.append_cons] at h
  obtain ⟨p, hp, hq⟩ := run_aftermath_at h
  have hretry : .retry ∈ deeds (y :: more) :=
    List.mem_filterMap.mpr
      ⟨y, List.mem_cons_self, (move hq).retries_of_closed (hp.closed _ _ _ rfl hx)⟩
  intro hr
  unfold Rests at hr
  rw [List.append_cons, deeds_append, deeds_append, List.pairwise_append] at hr
  exact (hr.2.2 _ (List.mem_append_left _ hstart) _ hretry rfl).2 rfl

/-- **A run rests after its function, and reports no other call then unless the ledger does, exactly
if no inconsistent state of a completion or removal is thrown away.** -/
theorem run_rests_iff (h : (e.run enc payload left).Leads said rest) :
    (Rests said ∧ (.start ∈ deeds said → ∀ k, rest = done (.error (.alreadyInProgress k)) →
        ∃ x ∈ said, closing? x = some (.error (.alreadyInProgress k)))) ↔
      ¬ Thrown e.settings.maxRetries said := by
  refine ⟨fun hr ht => not_rests_of_thrown h ht hr.1, fun ht => ?_⟩
  obtain ⟨p, hp, hrest⟩ := run_aftermath h
  refine ⟨hp.rests.resolve_right ht, ?_⟩
  rintro hstart k rfl
  have hengaged : p.stand.isEngaged = true := by
    by_contra hs
    exact ht (hp.again (hp.used hstart) (by simpa using hs))
  obtain ⟨reason, -, hresult⟩ | hc := hrest
  · cases hresult
  · rcases Stand.concludes_engaged hengaged hc with
      ⟨f, hf⟩ | ⟨r, hr⟩ | ⟨cause, doing, hclosed, herr⟩
    · cases hf
    · cases hr
    · obtain rfl := eq_of_orPersistence herr.symm nofun
      obtain ⟨earlier, x, rfl, hx⟩ := hp.told.closed hclosed
      exact ⟨x, by simp, hx⟩

end

/-- Only the completion gets lost. -/
def lostCompletion : Ledger.Faulty :=
  Ledger.Faulty.empty.push .complete (.inconsistentState "shard moved")

/-- Without retries the lost completion ends the run. -/
theorem lostCompletion_ends :
    (chargeOver 0 lostCompletion).2 = .error (.inconsistentState "shard moved") ∧
      ¬ Thrown 0 (chargeOver 0 lostCompletion).1 ∧ Rests (chargeOver 0 lostCompletion).1 := by
  have kept : ¬ Thrown 0 (chargeOver 0 lostCompletion).1 :=
    fun ⟨_, _, _, _, _, _, _, hleft⟩ => Nat.not_lt_zero _ hleft
  exact ⟨by decide +kernel, kept,
    ((run_rests_iff (leads_tell (faultyAnswer (.ok "charged"))
      ((charging 0).run plain (.ok (.string "order")) none) lostCompletion)).mpr kept).1⟩

/-- With retries the run claims its own key again and reports itself. -/
theorem lostCompletion_resumes :
    ((charging 2).run plain (.ok (.string "order")) none).Leads (chargeOver 2 lostCompletion).1
        (done (.error (.alreadyInProgress order))) ∧
      deeds (chargeOver 2 lostCompletion).1 = [.claim, .start, .finish, .close, .retry, .claim] ∧
      ¬ Rests (chargeOver 2 lostCompletion).1 := by
  have hresult : (chargeOver 2 lostCompletion).2 = .error (.alreadyInProgress order) := by
    decide +kernel
  refine ⟨?_, by decide +kernel, by decide +kernel⟩
  rw [← hresult]
  exact leads_tell _ _ _

end AtMostOnce.Engine
