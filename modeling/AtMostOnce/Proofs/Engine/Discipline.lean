/-
What a run does at most once, whatever it is answered.

The trace of a run tells what it did: claims, starts and ends of the function, requests
that complete or give up a claim, retries.  Counts of these follow the run's progress
step by step (`Tally.step`), and so does what a stand says about the trace before it
(`Stand.Told.step`).

A run also divides into attempts.  Each of them but the last gave up, so there is one
more than retries at most (`attempts_divide`).
-/
import AtMostOnce.Ledger.Faulty
import AtMostOnce.Proofs.Engine.Interleaved
import AtMostOnce.Proofs.Engine.Progress

namespace AtMostOnce.Engine

open Dialogue

variable {α : Type}

/-! ### Deeds -/

/-- What a run is seen to do. -/
inductive Deed where
  | claim
  | start
  | finish
  /-- It completes a claim or gives it up. -/
  | close
  | retry
  deriving DecidableEq, Repr

def Request.deed? : Request → Option Deed
  | .ledger (.claim _) => some .claim
  | .ledger (.complete _) | .ledger (.remove _) => some .close
  | .start => some .start
  | .finish => some .finish
  | .note (.warning .retrying) => some .retry
  | _ => none

/-- What is done in a trace. -/
def deeds (said : Trace Request (Answer α)) : List Deed :=
  said.filterMap fun x => x.question.deed?

/-- How the ledger answered the request that completes a claim or gives it up. -/
def closing? : Exchange Request (Answer α) → Option (Except Error Unit)
  | ⟨.ledger (.complete _), a⟩ => some a
  | ⟨.ledger (.remove _), a⟩ => some a
  | _ => none

theorem deed?_eq_close {q : Request} (h : q.deed? = some .close) :
    (∃ r, q = .ledger (.complete r)) ∨ ∃ k, q = .ledger (.remove k) := by
  unfold Request.deed? at h
  split at h
  case h_2 r => exact .inl ⟨r, rfl⟩
  case h_3 k => exact .inr ⟨k, rfl⟩
  all_goals cases h

/-- A claim is completed or given up when the function has ended. -/
theorem ended_of_close {e : Engine} {enc : Encoding α} {most : Nat} {p : Progress α} {q : Request}
    (h : p.allows e enc most q) (hq : q.deed? = some .close) :
    ∃ claim outcome, p.stand = .ended claim outcome := by
  rcases deed?_eq_close hq with ⟨r, rfl⟩ | ⟨k, rfl⟩
  · obtain ⟨claim, a, hs⟩ := h
    exact ⟨claim, .ok a, hs⟩
  · obtain ⟨claim, f, hs⟩ := h
    exact ⟨claim, .error f, hs⟩

/-- How often a question does it. -/
def Request.doing (q : Request) (d : Deed) : Nat := if q.deed? = some d then 1 else 0

theorem deeds_append (said more : Trace Request (Answer α)) :
    deeds (said ++ more) = deeds said ++ deeds more := List.filterMap_append

theorem deeds_concat (said : Trace Request (Answer α)) (x : Exchange Request (Answer α)) :
    deeds (said ++ [x]) = deeds said ++ x.question.deed?.toList := by
  rw [deeds_append, deeds]
  cases hx : x.question.deed? <;> simp [deeds, hx]

theorem count_deeds_concat (said : Trace Request (Answer α)) (x : Exchange Request (Answer α))
    (d : Deed) :
    (deeds (said ++ [x])).count d = (deeds said).count d + x.question.doing d := by
  rw [deeds_concat, List.count_append, Request.doing]
  cases x.question.deed? with
  | none => rfl
  | some d' =>
    simp [List.count_singleton]

/-! ### Moves -/

/-- The steps of a run. -/
inductive Move (e : Engine) (enc : Encoding α) (most : Nat) :
    Progress α → Exchange Request (Answer α) → Progress α → Prop
  | idles {p x} (ease : p.stand.isAtEase) (hx : x.question.deed? = none) : Move e enc most p x p
  | hits {n b k r} : Move e enc most ⟨n, b, .seeking⟩ ⟨.cached k, some r⟩ ⟨n, b, .hit r⟩
  | fails {n b r err} :
    Move e enc most ⟨n, b, .seeking⟩ ⟨.ledger (.claim r), .error err⟩ ⟨n, b, .failed err⟩
  | meets {n b r} :
    Move e enc most ⟨n, b, .seeking⟩ ⟨.ledger (.claim r), .ok .conflict⟩ ⟨n, b, .denied⟩
  | grantsSpent {n r} :
    Move e enc most ⟨n, true, .seeking⟩ ⟨.ledger (.claim r), .ok .created⟩ ⟨n, true, .spent⟩
  | grants {n r} :
    Move e enc most ⟨n, false, .seeking⟩ ⟨.ledger (.claim r), .ok .created⟩ ⟨n, false, .granted r⟩
  | finds {n b k r} : Move e enc most ⟨n, b, .denied⟩ ⟨.ledger (.find k), .ok r⟩ ⟨n, b, .met r⟩
  | loses {n b k err} :
    Move e enc most ⟨n, b, .denied⟩ ⟨.ledger (.find k), .error err⟩ ⟨n, b, .lost err⟩
  | announces {n b claim m} : Move e enc most ⟨n, b, .granted claim⟩
      ⟨.note (.reached .wrappedCallRunning m), ()⟩ ⟨n, b, .announced claim⟩
  | starts {n claim} :
    Move e enc most ⟨n, false, .announced claim⟩ ⟨.start, ()⟩ ⟨n, true, .running claim⟩
  | finishes {n b claim outcome} :
    Move e enc most ⟨n, b, .running claim⟩ ⟨.finish, outcome⟩ ⟨n, b, .ended claim outcome⟩
  | completes {n b claim a r answer} : Move e enc most ⟨n, b, .ended claim (.ok a)⟩
      ⟨.ledger (.complete r), answer⟩ ⟨n, b, .stored claim a answer⟩
  | removes {n b claim f k answer} : Move e enc most ⟨n, b, .ended claim (.error f)⟩
      ⟨.ledger (.remove k), answer⟩ ⟨n, b, .dropped claim f answer⟩
  | retries {n b s} (up : s.givesUp e enc) (left : n < most) :
    Move e enc most ⟨n, b, s⟩ ⟨.note (.warning .retrying), ()⟩ ⟨n + 1, b, .seeking⟩
  | startsApart {n} (disabled : e.settings.disabled = true) :
    Move e enc most ⟨n, false, .apart⟩ ⟨.start, ()⟩ ⟨n, true, .apart⟩
  | finishesApart {n b outcome} :
    Move e enc most ⟨n, b, .apart⟩ ⟨.finish, outcome⟩ ⟨n, b, .apart⟩

variable {e : Engine} {enc : Encoding α} {most : Nat} {p p' : Progress α}
  {x : Exchange Request (Answer α)} {said : Trace Request (Answer α)}

theorem move (h : p.allows e enc most x.question) :
    Move e enc most p x (p.after x.question x.answer) := by
  obtain ⟨n, b, s⟩ := p
  obtain ⟨q, a⟩ := x
  cases q with
  | now => exact .idles h rfl
  | keep r => exact .idles h rfl
  | forget k => exact .idles h rfl
  | cached k =>
    cases h
    cases a with
    | none => exact .idles (by trivial) rfl
    | some r => exact .hits
  | ledger q =>
    cases q with
    | claim r =>
      cases h
      rcases a with err | _ | _
      · exact .fails
      · cases b with
        | true => exact .grantsSpent
        | false => exact .grants
      · exact .meets
    | find k =>
      cases h
      cases a with
      | error err => exact .loses
      | ok r => exact .finds
    | complete r =>
      obtain ⟨claim, x, rfl⟩ := h
      exact .completes
    | remove k =>
      obtain ⟨claim, f, rfl⟩ := h
      exact .removes
  | start =>
    obtain ⟨rfl, ⟨claim, rfl⟩ | ⟨rfl, hdis⟩⟩ := h
    · exact .starts
    · exact .startsApart hdis
  | finish =>
    rcases h with ⟨claim, rfl⟩ | rfl
    · exact .finishes
    · exact .finishesApart
  | note event =>
    cases event with
    | warning w =>
      cases w with
      | retrying => exact .retries h.1 h.2
      | _ => exact .idles h rfl
    | reached stage m =>
      cases stage with
      | wrappedCallRunning =>
        obtain ⟨claim, rfl⟩ := h
        exact .announces
      | _ => exact .idles h rfl

/-! ### Counts -/

/-- How many requests to complete or give up a claim are still to come. -/
def Stand.due : Stand α → Nat
  | running _ | ended _ _ => 1
  | _ => 0

/-- The trace counts what the progress remembers. -/
structure Tally (said : Trace Request (Answer α)) (p : Progress α) : Prop where
  retries : (deeds said).count .retry = p.retries
  starts : (deeds said).count .start = p.used.toNat
  closes : (deeds said).count .close + p.stand.due ≤ p.used.toNat

theorem Move.counts (h : Move e enc most p x p') :
    p'.retries = p.retries + x.question.doing .retry ∧
      p'.used.toNat = p.used.toNat + x.question.doing .start ∧
      x.question.doing .close + p'.stand.due ≤ p.stand.due + x.question.doing .start := by
  cases h with
  | idles ease hx => simp [Request.doing, hx]
  | _ => simp [Request.doing, Request.deed?, Stand.due]

theorem Tally.step (h : Tally said p) (hm : Move e enc most p x p') : Tally (said ++ [x]) p' := by
  obtain ⟨hretries, hstarts, hcloses⟩ := h
  obtain ⟨hr, hs, hc⟩ := hm.counts
  constructor
  · rw [count_deeds_concat]
    omega
  · rw [count_deeds_concat]
    omega
  · rw [count_deeds_concat]
    omega

/-! ### What a stand tells of the trace -/

/-- What was said before, by the stand that it led to. -/
def Stand.Told (said : Trace Request (Answer α)) : Stand α → Prop
  | granted claim => ∃ earlier, said = earlier ++ [⟨.ledger (.claim claim), .ok .created⟩]
  | announced claim => ∃ earlier n, said = earlier ++
      [⟨.ledger (.claim claim), .ok .created⟩, ⟨.note (.reached .wrappedCallRunning n), ()⟩]
  | ended _ _ => .finish ∈ deeds said
  | stored _ _ (.error err) | dropped _ _ (.error err) =>
    ∃ earlier x, said = earlier ++ [x] ∧ closing? x = some (.error err)
  | _ => True

theorem Stand.Told.step (h : p.stand.Told said) (hm : Move e enc most p x p') :
    p'.stand.Told (said ++ [x]) := by
  cases hm with
  | idles ease hx =>
    obtain ⟨n, b, s⟩ := p
    cases s with
    | ended claim outcome =>
      show Deed.finish ∈ deeds (said ++ [x])
      rw [deeds_concat]
      exact List.mem_append_left _ h
    | stored claim a answer =>
      cases answer with
      | ok _ => trivial
      | error err => exact ease.elim
    | dropped claim f answer =>
      cases answer with
      | ok _ => trivial
      | error err => exact ease.elim
    | granted claim => exact ease.elim
    | announced claim => exact ease.elim
    | _ => trivial
  | grants => exact ⟨said, rfl⟩
  | announces =>
    obtain ⟨earlier, rfl⟩ := h
    exact ⟨earlier, _, by rw [List.append_assoc]; rfl⟩
  | finishes =>
    show Deed.finish ∈ deeds _
    rw [deeds_concat]
    exact List.mem_append_right _ List.mem_cons_self
  | @completes n b claim a r answer =>
    cases answer with
    | ok _ => trivial
    | error err => exact ⟨said, _, rfl, rfl⟩
  | @removes n b claim f k answer =>
    cases answer with
    | ok _ => trivial
    | error err => exact ⟨said, _, rfl, rfl⟩
  | _ => trivial

/-- A trace along which a run comes to its progress. -/
structure Course (said : Trace Request (Answer α)) (p : Progress α) : Prop where
  tally : Tally said p
  told : p.stand.Told said

theorem Course.step (h : Course said p) (hm : Move e enc most p x p') : Course (said ++ [x]) p' :=
  ⟨h.tally.step hm, h.told.step hm⟩

/-! ### Runs -/

section

variable {payload : Payload} {left : Option Nat} {rest : Action α (Except Error α)}

theorem course_initial : Course [] (.initial (α := α) e) := by
  refine ⟨⟨rfl, rfl, ?_⟩, ?_⟩
  · unfold Progress.initial
    split <;> exact Nat.le_refl 0
  · unfold Progress.initial
    split <;> trivial

theorem run_course (h : (e.run enc payload left).Leads said rest) :
    ∃ p, Course said p :=
  ⟨_, ((keeps_run payload left).holds Course h (fun _ _ => trivial)
    course_initial fun _ _ _ hc hq _ => hc.step (move hq)).1⟩

/-- What a run asks in the middle of its trace. -/
theorem run_course_at {before after : Trace Request (Answer α)}
    (h : (e.run enc payload left).Leads (before ++ x :: after) rest) :
    ∃ p, Course before p ∧ p.allows e enc e.settings.maxRetries x.question :=
  ⟨_, (keeps_run payload left).holds_at Course h (fun _ _ => trivial)
    course_initial fun _ _ _ hc hq _ => hc.step (move hq)⟩

end

/-! ### Attempts -/

/-- An attempt as it went: what was said in it, and what is left of it. -/
structure Attempt (α : Type) where
  said : Trace Request (Answer α)
  rest : Action α (Except Error α × Bool)

/-- The attempt has ended with an inconsistent state. -/
def Attempt.GaveUp (a : Attempt α) : Prop :=
  ∃ reason started, a.rest = done (.error (.inconsistentState reason), started)

/-- A trace of attempts from number `n` on, one after the other: each but the last one gave up, and
a note of the retry stands between any two. -/
inductive Attempts (e : Engine) (enc : Encoding α) (v : Json.Value) (left : Option Nat) :
    (n : Nat) → (started : Bool) → Trace Request (Answer α) → List (Attempt α) → Prop
  | last {n started said rest} (h : (e.attempt enc v left n started).Leads said rest) :
    Attempts e enc v left n started said [⟨said, rest⟩]
  | again {n started said reason started' more as}
    (h : (e.attempt enc v left n started).Leads said
      (done (.error (.inconsistentState reason), started')))
    (hmore : Attempts e enc v left (n + 1) started' more as) :
    Attempts e enc v left n started (said ++ ⟨.note (.warning .retrying), ()⟩ :: more)
      (⟨said, done (.error (.inconsistentState reason), started')⟩ :: as)

/-- The attempts of a run; a payload that is no value gives no attempt. -/
def Attempts.OfRun (e : Engine) (enc : Encoding α) (payload : Payload) (left : Option Nat)
    (said : Trace Request (Answer α)) (as : List (Attempt α)) : Prop :=
  match payload with
  | .error _ => said = [] ∧ as = []
  | .ok v => Attempts e enc v left 0 false said as

/-- What the attempts have to do with the result. -/
def Attempts.Exhausted (retries : Nat) (rest : Action α (Except Error α)) (as : List (Attempt α)) :
    Prop :=
  ∀ reason, rest = done (.error (.inconsistentState reason)) →
    as.length = retries + 1 ∧ ∀ a ∈ as, a.GaveUp

theorem Attempts.Exhausted.of_unfinished {retries : Nat} {rest : Action α (Except Error α)}
    {as : List (Attempt α)} (h : rest.result? = none) : Attempts.Exhausted retries rest as := by
  rintro reason rfl
  cases h

/-- **A run with some retries divides into one attempt more at most, and all of them gave up if it
ends with an inconsistent state.** -/
theorem attempts_divide {v : Json.Value} {left : Option Nat} {rest : Action α (Except Error α)}
    (retries : Nat) : ∀ (n : Nat) (started : Bool) (said : Trace Request (Answer α)),
      (e.attempts enc v left retries n started).Leads said rest →
        ∃ as, Attempts e enc v left n started said as ∧ as.length ≤ retries + 1 ∧
          Attempts.Exhausted retries rest as := by
  induction retries with
  | zero =>
    intro n started said h
    rw [attempts] at h
    rcases h.of_bind with ⟨d, hd, -, hrest⟩ | ⟨⟨result, started'⟩, before, after, rfl, hd, hafter⟩
    · exact ⟨_, .last hd, Nat.le_refl _, .of_unfinished hrest⟩
    · cases hafter
      refine ⟨_, .last (by rwa [List.append_nil]), Nat.le_refl _, ?_⟩
      rintro reason hresult
      cases hresult
      exact ⟨rfl, fun a ha => ⟨reason, started', by rw [List.mem_singleton.mp ha]⟩⟩
  | succ retries ih =>
    intro n started said h
    rw [attempts] at h
    rcases h.of_bind with ⟨d, hd, -, hrest⟩ | ⟨⟨result, started'⟩, before, after, rfl, hd, hafter⟩
    · exact ⟨_, .last hd, by simp, .of_unfinished hrest⟩
    · cases result with
      | ok a =>
        cases hafter
        refine ⟨_, .last (by rwa [List.append_nil]), by simp, fun reason hresult => ?_⟩
        cases hresult
      | error err =>
        by_cases hr : err.isRetryable = true
        · obtain ⟨reason, rfl⟩ := isRetryable_iff.mp hr
          cases hafter with
          | here =>
            exact ⟨_, .last (by rwa [List.append_nil]), by simp, .of_unfinished rfl⟩
          | on _ _ hmore =>
            obtain ⟨as, has, hlength, hall⟩ := ih _ _ _ hmore
            refine ⟨_, .again hd has, Nat.succ_le_succ hlength, fun reason' hresult => ?_⟩
            obtain ⟨hcount, hgave⟩ := hall reason' hresult
            exact ⟨congrArg Nat.succ hcount,
              List.forall_mem_cons.mpr ⟨⟨reason, started', rfl⟩, hgave⟩⟩
        · simp only [if_neg hr] at hafter
          cases hafter
          refine ⟨_, .last (by rwa [List.append_nil]), by simp, fun reason hresult => ?_⟩
          cases hresult
          exact absurd rfl hr

/-! ### The discipline -/

/-- **What a run does whatever it is answered**: it makes so many attempts at most as it has retries
and one more, it starts its function once at most and only right after a claim was granted to it,
it completes or gives up a claim once at most and only after the function has ended, and it ends
with an inconsistent state only after all its attempts have. -/
theorem run_disciplined {payload : Payload} {left : Option Nat} {rest : Action α (Except Error α)}
    (enabled : e.settings.disabled = false) (h : (e.run enc payload left).Leads said rest) :
    (∃ as, Attempts.OfRun e enc payload left said as ∧
        as.length ≤ e.settings.maxRetries + 1 ∧
        Attempts.Exhausted e.settings.maxRetries rest as) ∧
      (deeds said).count .start ≤ 1 ∧
      (∀ before after, said = before ++ ⟨.start, ()⟩ :: after →
        ∃ earlier claim n, before = earlier ++ [⟨.ledger (.claim claim), .ok .created⟩,
          ⟨.note (.reached .wrappedCallRunning n), ()⟩]) ∧
      (deeds said).count .close ≤ 1 ∧
      ∀ before x after, said = before ++ x :: after → x.question.deed? = some .close →
        .finish ∈ deeds before := by
  obtain ⟨p, hp⟩ := run_course h
  have hused := Bool.toNat_le p.used
  refine ⟨?_, ?_, ?_, ?_, ?_⟩
  · rw [run.eq_def, if_neg (by simp [enabled])] at h
    cases payload with
    | error reason =>
      cases h
      refine ⟨[], ⟨rfl, rfl⟩, Nat.zero_le _, fun reason hresult => ?_⟩
      cases hresult
    | ok v => exact attempts_divide _ _ _ _ h
  · rw [hp.tally.starts]
    exact hused
  · rintro before after rfl
    obtain ⟨p, hp, -, hs⟩ := run_course_at h
    rcases hs with ⟨claim, hs⟩ | ⟨-, hdis⟩
    · have htold := hp.told
      rw [hs] at htold
      obtain ⟨earlier, n, htold⟩ := htold
      exact ⟨earlier, claim, n, htold⟩
    · rw [enabled] at hdis
      cases hdis
  · exact Nat.le_trans (Nat.le_add_right _ _) (Nat.le_trans hp.tally.closes hused)
  · rintro before x after rfl hx
    obtain ⟨p, hp, hq⟩ := run_course_at h
    obtain ⟨claim, outcome, hs⟩ := ended_of_close hq hx
    have htold := hp.told
    rw [hs] at htold
    exact htold

/-! ### A ledger that fails -/

instance (result : Except Error α) (err : Error) : Decidable (result = .error err) :=
  match result with
  | .ok _ => .isFalse nofun
  | .error err' => decidable_of_iff (err' = err) ⟨congrArg _, Except.error.inj⟩

/-- Answers at the beginning of time over a ledger that fails on demand, around a function that
ends so. -/
def faultyAnswer (outcome : Except Failure α) :
    (q : Request) → Ledger.Faulty → Answer α q × Ledger.Faulty
  | .now, l => (0, l)
  | .cached _, l => (none, l)
  | .keep _, l => ((), l)
  | .forget _, l => ((), l)
  | .ledger q, l => l.answer 0 q
  | .start, l => ((), l)
  | .finish, l => (outcome, l)
  | .note _, l => ((), l)

/-- A run that charges the order over such a ledger. -/
def chargeOver (maxRetries : Nat) (l : Ledger.Faulty) :
    Trace Request (Answer String) × Except Error String :=
  ((charging maxRetries).run plain (.ok (.string "order")) none).tell
    (faultyAnswer (.ok "charged")) l

/-- The completion gets lost, and so does the record. -/
def lostRecord : Ledger.Faulty :=
  (Ledger.Faulty.empty.push .complete (.inconsistentState "shard moved")).push .find
    (.itemNotFound order)

theorem lostRecord_disciplined :
    (chargeOver 1 lostRecord).2 =
        .error (.inconsistentState s!"record for {order} vanished after a conflicting write") ∧
      deeds (chargeOver 1 lostRecord).1 = [.claim, .start, .finish, .close, .retry, .claim] ∧
      ∃ as, Attempts.OfRun (charging 1) plain (.ok (.string "order")) none
        (chargeOver 1 lostRecord).1 as ∧ as.length = 2 ∧ ∀ a ∈ as, a.GaveUp := by
  have hresult : (chargeOver 1 lostRecord).2 =
      .error (.inconsistentState s!"record for {order} vanished after a conflicting write") := by
    decide +kernel
  obtain ⟨⟨as, has, -, hexhausted⟩, -⟩ := run_disciplined rfl
    (leads_tell (faultyAnswer (.ok "charged"))
      ((charging 1).run plain (.ok (.string "order")) none) lostRecord)
  exact ⟨hresult, by decide +kernel, as, has, hexhausted _ (congrArg done hresult)⟩

end AtMostOnce.Engine
