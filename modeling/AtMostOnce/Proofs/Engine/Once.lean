/-
The function is started at most once for a key.

Every start has a claim behind it, and of two claims of one key the later one found
the key free: it had been removed, or the record there could be replaced
(`Changes.freed`).  In a steady execution neither happens, so one call at most is
granted the key and starts the function.

What becomes of the others is a matter of what they know.  A call that looks at the
record in its way and finds it over looks at a claim that was completed in the
meantime (`Steady.overtaken`); from then on the completed record is all there is to
find.  So one retry is enough, and only a call without any may end with an
inconsistent state.
-/
import AtMostOnce.Proofs.Engine.Origin

namespace AtMostOnce.Engine.Interleaved

variable {κ α ι : Type} [DecidableEq κ] [DecidableEq ι] {calls : ι → Call κ α}
  (x : Interleaved calls)

/-- The key came free between two events: it was removed, or what stood there at the later one
could be replaced. -/
def Freed (k : Key) (m n : Nat) : Prop :=
  (∃ t, m < t ∧ t < n ∧ ∃ i, x.Changes t i (.removed k)) ∨
    ∃ r, x.stored n k = some r ∧ r.isReplaceable (x.state n).now = true

/-- The key's record is never removed and can never be replaced. -/
structure Steady (k : Key) : Prop where
  fresh : x.Fresh
  kept : ∀ n i, ¬ x.Changes n i (.removed k)
  inForce : ∀ n ≤ x.length, ∀ r, x.stored n k = some r → r.isReplaceable (x.state n).now = false

/-- The key's record was completed before the `n`-th event. -/
def DoneBefore (k : Key) (n : Nat) : Prop := ∃ w, w.key = k ∧ x.CompletedBefore n w

variable {x} {m n : Nat} {i j : ι} {k : Key} {r r' : Record}

/-! ### Claims of one key -/

theorem stored_stays (h : x.stored m k ≠ none) (hmn : m ≤ n) (hn : n ≤ x.length)
    (kept : ∀ t, m ≤ t → t < n → ∀ i, ¬ x.Changes t i (.removed k)) : x.stored n k ≠ none := by
  induction n, hmn using Nat.le_induction with
  | base => exact h
  | succ n hmn ih =>
    have before := ih (by omega) fun t ht htn => kept t ht (by omega)
    rcases stored_succ_cases (Nat.lt_of_succ_le hn) k with ⟨i, c, hc, hk, hs⟩ | hs
    · rw [hs]
      cases c with
      | claimed r => exact Option.some_ne_none r
      | completed r => exact Option.some_ne_none r
      | removed k' =>
        cases hk
        exact absurd hc (kept n hmn (by omega) i)
    · rw [hs]
      exact before

theorem Changes.freed (h : x.Changes m i (.claimed r)) (h' : x.Changes n j (.claimed r'))
    (hk : r.key = r'.key) (hmn : m < n) : x.Freed r.key m n := by
  by_cases hr : ∃ t, m < t ∧ t < n ∧ ∃ i, x.Changes t i (.removed r.key)
  · exact .inl hr
  · have hset : x.stored (m + 1) r.key ≠ none := by
      rw [show x.stored (m + 1) r.key = some r from h.stored_key]
      nofun
    have hkeeps := stored_stays hset hmn (Nat.le_of_lt h'.1) fun t ht htn i hc =>
      hr ⟨t, by omega, htn, i, hc⟩
    obtain ⟨old, hold⟩ := Option.ne_none_iff_exists'.mp hkeeps
    exact .inr ⟨old, hold, h'.replaces (hk ▸ hold)⟩

/-! ### Starts -/

theorem not_apart (enabled : ¬ (calls i).isApart) (hn : n ≤ x.length) : x.phaseOf i n ≠ .apart := by
  have h0 : x.phaseOf i 0 ≠ .apart := by
    rw [phaseOf_zero]
    unfold Call.begins
    split
    · rename_i enc left ht
      split
      · rename_i hdis
        exact absurd ⟨⟨enc, left, ht⟩, hdis⟩ enabled
      · nofun
    · nofun
  exact phaseOf_stays (p := fun s => s ≠ .apart)
    (fun _ _ _ hs ha => hs (Phase.apart_of_after ha)) h0 (Nat.zero_le n) hn

theorem Starts.holding (h : x.Starts n i) (enabled : ¬ (calls i).isApart) :
    ∃ r, x.phaseOf i n = .holding r := by
  rcases (allowed h : (∃ r, x.phaseOf i n = .holding r) ∨ x.phaseOf i n = .apart) with hr | hs
  · exact hr
  · exact absurd hs (not_apart enabled (Nat.le_of_lt h.1))

theorem Starts.claimed (h : x.Starts n i) (enabled : ¬ (calls i).isApart) :
    ∃ m < n, ∃ r, x.Changes m i (.claimed r) ∧ (calls i).key? = some r.key := by
  obtain ⟨r, hp⟩ := h.holding enabled
  obtain ⟨m, hm, hc⟩ := claimed_of_claim? (r := r) (Nat.le_of_lt h.1) (by rw [hp]; rfl)
  obtain ⟨-, -, -, k, _, _, hk, hr⟩ := hc.claimed
  exact ⟨m, hm, r, hc, by rw [hk, hr]⟩

theorem Starts.unique (h : x.Starts m i) (h' : x.Starts n i) (enabled : ¬ (calls i).isApart) :
    m = n := by
  wlog hmn : m ≤ n generalizing m n
  · exact (this h' h (Nat.le_of_not_le hmn)).symm
  by_contra hne
  obtain ⟨r, hp⟩ := h.holding enabled
  obtain ⟨r', hp'⟩ := h'.holding enabled
  have hrun : (x.phaseOf i (m + 1)).hasStarted := by
    rw [phaseOf_succ h, hp]
    trivial
  have hstays : (x.phaseOf i n).hasStarted :=
    phaseOf_stays (fun _ q a hs => Phase.hasStarted_after hs q a) hrun
      (Nat.lt_of_le_of_ne hmn hne) (Nat.le_of_lt h'.1)
  rw [hp'] at hstays
  exact hstays

theorem starts_of_hasStarted (hn : n ≤ x.length) (h : (x.phaseOf i n).hasStarted) :
    ∃ m < n, x.Starts m i := by
  obtain ⟨m, hm, q, a, s, s', hs, -, -, hmove, hnot, hp⟩ :=
    phaseOf_arises (p := Phase.hasStarted) id id id hn h
  cases hmove with
  | starts r => exact ⟨m, hm, hs⟩
  | stays => exact absurd hp hnot
  | finishes => exact absurd trivial hnot
  | stores => exact absurd trivial hnot
  | drops => exact absurd trivial hnot
  | _ => exact hp.elim

/-! ### Steady executions -/

namespace Steady

variable (h : x.Steady k)

include h

theorem claimed_unique (hm : x.Changes m i (.claimed r)) (hn : x.Changes n j (.claimed r'))
    (hk : r.key = k) (hk' : r'.key = k) : m = n := by
  wlog hmn : m ≤ n generalizing m n i j r r'
  · exact (this hn hm hk' hk (Nat.le_of_not_le hmn)).symm
  by_contra hne
  rcases hm.freed hn (hk.trans hk'.symm) (Nat.lt_of_le_of_ne hmn hne) with
    ⟨t, -, -, l, hc⟩ | ⟨old, hold, hr⟩
  · rw [hk] at hc
    exact h.kept t l hc
  · rw [hk] at hold
    rw [h.inForce n (Nat.le_of_lt hn.1) old hold] at hr
    cases hr

/-- A completion is one of the call that was granted the key. -/
theorem completed_after (hm : x.Changes m i (.claimed r)) (hn : x.Changes n j (.completed r'))
    (hk : r.key = k) (hk' : r'.key = k) : i = j ∧ m < n := by
  rcases hn.cases with ⟨_, hc⟩ | ⟨-, _, hc⟩ | ⟨l, hl, claim, hg, hkey, -⟩
  · cases hc
  · cases hc
  · have hml := h.claimed_unique hm hg hk (hkey.trans hk')
    subst hml
    exact ⟨(hm.unique hg).1, hl⟩

theorem completed_unique (hm : x.Changes m i (.completed r)) (hn : x.Changes n j (.completed r'))
    (hk : r.key = k) (hk' : r'.key = k) : m = n := by
  wlog hmn : m ≤ n generalizing m n i j r r'
  · exact (this hn hm hk' hk (Nat.le_of_not_le hmn)).symm
  by_contra hne
  rcases hm.cases with ⟨_, hc⟩ | ⟨-, _, hc⟩ | ⟨l, -, claim, hg, hkey, hdone⟩
  · cases hc
  · cases hc
  · obtain ⟨rfl, -⟩ := h.completed_after hg hn (hkey.trans hk) hk'
    exact hn.not_after_done hdone (Nat.lt_of_le_of_ne hmn hne)

theorem completed_stays (hm : x.Changes m i (.completed r)) (hk : r.key = k) (hmn : m < n)
    (hn : n ≤ x.length) : x.stored n k = some r := by
  induction n, hmn using Nat.le_induction with
  | base => exact hk ▸ hm.stored_key
  | succ n hmn ih =>
    rcases stored_succ_cases (Nat.lt_of_succ_le hn) k with ⟨j, c, hc, hck, hs⟩ | hs
    · cases c with
      | claimed r' =>
        rcases hm.cases with ⟨_, hd⟩ | ⟨-, _, hd⟩ | ⟨l, hl, claim, hg, hkey, -⟩
        · cases hd
        · cases hd
        · have hln := h.claimed_unique hg hc (hkey.trans hk) hck
          omega
      | completed r' =>
        have hnm := h.completed_unique hm hc hk hck
        omega
      | removed k' =>
        cases hck
        exact absurd hc (h.kept n j)
    · rw [hs]
      exact ih (by omega)

/-- A record that is over by the time it is judged was a claim, and was completed since it was
read. -/
theorem overtaken {l l' : Nat} (hl : x.stored l k = some r) (hll : l ≤ l') (hl' : l' ≤ x.length)
    (ho : Phase.isOver r (x.state l').now) :
    (∃ m j, x.Changes m j (.claimed r)) ∧ r.isReplaceable (x.state l').now = true ∧
      x.DoneBefore k l' ∧ ¬ x.DoneBefore k l := by
  obtain ⟨hk, m, hm, j, hc | hc⟩ := stored_origin h.fresh (by omega) hl
  · have hr : r.isReplaceable (x.state l').now = true := by
      rcases ho with ho | ho
      · exact ho
      · rw [hc.claimed_status] at ho
        cases ho
    refine ⟨⟨m, j, hc⟩, hr, ?_, ?_⟩
    · have hkeeps := stored_stays (by rw [hl]; nofun) hll hl' fun t _ _ i => h.kept t i
      obtain ⟨now, hnow⟩ := Option.ne_none_iff_exists'.mp hkeeps
      obtain ⟨hk', m', hm', j', hc' | hc'⟩ := stored_origin h.fresh hl' hnow
      · -- the key is claimed once, so what stands there now would be the same record
        have hmm := h.claimed_unique hc hc' hk hk'
        subst hmm
        cases (hc.unique hc').2
        rw [h.inForce l' hl' r hnow] at hr
        cases hr
      · exact ⟨now, hk', m', hm', j', hc'⟩
    · rintro ⟨w, hkw, m', hm', j', hw⟩
      have hs := h.completed_stays hw hkw hm' (by omega)
      rw [hl] at hs
      cases hs
      have hst := hw.completed_status
      rw [hc.claimed_status] at hst
      cases hst
  · have hs := h.completed_stays hc hk (n := l') (by omega) hl'
    rcases ho with ho | ho
    · rw [h.inForce l' hl' r hs] at ho
      cases ho
    · rw [hc.completed_status] at ho
      cases ho

end Steady

/-! ### What a call knows -/

/-- What holds in a phase of a call that is about the key, before the `n`-th event. -/
def Knows (x : Interleaved calls) (k : Key) (i : ι) (n : Nat) : Phase α → Prop
  | .seeking again => again = true → x.DoneBefore k n
  | .denied again => (again = true → x.DoneBefore k n) ∧ x.stored n k ≠ none
  | .missing _ => False
  | .read again r =>
    ∃ l < n, x.Says l i (.ledger (.find k)) (.ok r) ∧ (again = true → x.DoneBefore k l)
  | .judged again r t =>
    ∃ l, x.Says l i (.ledger (.find k)) (.ok r) ∧ (again = true → x.DoneBefore k l) ∧
      ∃ l' < n, l < l' ∧ x.Says l' i .now t
  | _ => True

/-- The time that a call is told is the time of that moment. -/
theorem told {t : Millis} (h : x.Says n i .now t) : (x.state n).now = t := by
  obtain ⟨outcome, ha⟩ := Execution.Says.answers h
  exact congrArg Prod.fst ha

theorem DoneBefore.mono (h : x.DoneBefore k m) (hmn : m ≤ n) : x.DoneBefore k n := by
  obtain ⟨w, hw, hc⟩ := h
  exact ⟨w, hw, hc.mono hmn⟩

theorem Steady.knows_later (h : x.Steady k) (hn : n < x.length) {s : Phase α}
    (hs : x.Knows k i n s) : x.Knows k i (n + 1) s := by
  cases s with
  | seeking again => exact fun ha => (hs ha).mono (by omega)
  | denied again =>
    exact ⟨fun ha => (hs.1 ha).mono (by omega),
      stored_stays hs.2 (by omega) hn fun t _ _ i => h.kept t i⟩
  | missing _ => exact hs
  | read again r =>
    obtain ⟨l, hl, hr⟩ := hs
    exact ⟨l, by omega, hr⟩
  | judged again r t =>
    obtain ⟨l, hr, hd, l', hl', hll, ht⟩ := hs
    exact ⟨l, hr, hd, l', by omega, hll, ht⟩
  | _ => trivial

/-- One step of a call keeps what it knows. -/
theorem Steady.knows_succ (h : x.Steady k) (hk : (calls i).key? = some k) (hn : n < x.length)
    (hs : x.Knows k i n (x.phaseOf i n)) : x.Knows k i (n + 1) (x.phaseOf i (n + 1)) := by
  rcases x.phaseOf_succ_cases i hn with ⟨q, a, hsaid⟩ | heq
  · have hlater := h.knows_later hn hs
    have hall := allowed hsaid
    have hmove := (x.phaseOf i n).after_move q a
    rw [← phaseOf_succ hsaid] at hmove
    generalize x.phaseOf i n = s at hs hlater hall hmove
    generalize x.phaseOf i (n + 1) = s' at hmove
    cases hmove with
    | stays => exact hlater
    | meets b r =>
      obtain ⟨-, k', _, _, hk', hr⟩ := hall
      obtain rfl : k = k' := Option.some.inj (hk.symm.trans hk')
      obtain ⟨old, hold, -⟩ := refused hsaid
      rw [hr] at hold
      have hkeeps : x.stored (n + 1) k ≠ none :=
        stored_stays (by rw [hold]; nofun) (by omega) hn fun t _ _ i => h.kept t i
      exact ⟨hlater, hkeeps⟩
    | reads b k' r =>
      obtain rfl : k = k' := Option.some.inj (hk.symm.trans hall.2)
      exact ⟨n, by omega, hsaid, hs.1⟩
    | misses b k' e =>
      obtain rfl : k = k' := Option.some.inj (hk.symm.trans hall.2)
      exact hs.2 (found hsaid)
    | judges b r t =>
      obtain ⟨l, hl, hr, hd⟩ := hs
      exact ⟨l, hr, hd, n, by omega, hl, hsaid⟩
    | rejudges b r t t' =>
      obtain ⟨l, hr, hd, l', hl', hll, -⟩ := hs
      exact ⟨l, hr, hd, n, by omega, by omega, hsaid⟩
    | retriesMissing b => exact hs.elim
    | retriesJudged b r t =>
      obtain ⟨l, hr, -, l', hl', hll, ht⟩ := hs
      obtain rfl := told ht
      exact fun _ =>
        (h.overtaken (found hr) (Nat.le_of_lt hll) (by omega) hall).2.2.1.mono (by omega)
    | hits | claims | starts | finishes | stores | drops => trivial
  · rw [heq]
    exact h.knows_later hn hs

theorem Steady.knows (h : x.Steady k) (hk : (calls i).key? = some k) (hn : n ≤ x.length) :
    x.Knows k i n (x.phaseOf i n) := by
  induction n with
  | zero =>
    rw [phaseOf_zero]
    rcases (calls i).begins_cases with hb | hb | hb
    · rw [hb]
      trivial
    · rw [hb]
      exact nofun
    · rw [hb]
      trivial
  | succ n ih => exact h.knows_succ hk (Nat.lt_of_succ_le hn) (ih (by omega))

/-! ### How the other calls end -/

/-- How a call may end that does not start the function. -/
inductive EndsWithout (x : Interleaved calls) (k : Key) (i : ι) : Except Error α → Prop
  /-- It replays what the call has stored that has started the function. -/
  | replays {enc : Encoding α} {left : Option Nat} {m n : Nat} {j : ι} {w : Record}
      (task : (calls i).task = .run enc left) (starts : x.Starts m j)
      (completed : x.Changes n j (.completed w)) (key : w.key = k) :
      EndsWithout x k i ((calls i).engine.replay enc ⟨k, (calls i).engine.functionName⟩ w)
  /-- It is told that another call holds the key. -/
  | held : EndsWithout x k i (.error (.alreadyInProgress k))
  /-- It is refused for its payload. -/
  | refused : EndsWithout x k i (.error (.payloadValidation k))
  /-- It may not try again, and the claim that it read could be replaced when it judged it later,
  for the claim had been completed in between. -/
  | unsettled {reason : String} {l m n : Nat} {j : ι} {r : Record}
      (retries : (calls i).engine.settings.maxRetries = 0)
      (claimed : x.Changes m j (.claimed r)) (key : r.key = k)
      (read : x.Says l i (.ledger (.find k)) (.ok r))
      (judged : x.Says n i .now (x.state n).now) (later : l < n)
      (late : r.isReplaceable (x.state n).now = true)
      (done : ¬ x.DoneBefore k l ∧ x.DoneBefore k n) :
      EndsWithout x k i (.error (.inconsistentState reason))

theorem Changes.completed_starts (h : x.Changes n j (.completed r)) : ∃ m, x.Starts m j := by
  obtain ⟨claim, a, hp, -, -⟩ := h.completed
  obtain ⟨m, -, hs⟩ := starts_of_hasStarted (Nat.le_of_lt h.1) (by rw [hp]; trivial)
  exact ⟨m, hs⟩

theorem Steady.endsWithout (h : x.Steady k) (hk : (calls i).key? = some k)
    (enabled : ¬ (calls i).isApart) {result : Except Error α}
    (ends : x.Ends i (.returned result)) (without : ∀ n, ¬ x.Starts n i) :
    x.EndsWithout k i result := by
  obtain ⟨n, hn, enc, left, htask, hc, hretry⟩ := finished ends
  have hknows := h.knows hk hn
  have hapart := not_apart enabled hn
  have unstarted : ¬ (x.phaseOf i n).hasStarted := by
    intro hst
    obtain ⟨m, -, hs⟩ := starts_of_hasStarted hn hst
    exact without m hs
  have replayed : ∀ w, x.WrittenBefore n w → w.status = .completed → w.key = k →
      (calls i).replays enc w result → x.EndsWithout k i result := by
    rintro w hw hst hkw ⟨-, k', hk', rfl⟩
    obtain ⟨m, -, j, hcw⟩ := hw.completed hst
    obtain ⟨m', hs⟩ := hcw.completed_starts
    obtain rfl : k = k' := Option.some.inj (hk.symm.trans hk')
    exact .replays htask hs hcw hkw
  cases hp : x.phaseOf i n with
  | seeking b =>
    rw [hp] at hc
    obtain ⟨hnone, -⟩ := hc
    rw [hk] at hnone
    cases hnone
  | hit r =>
    rw [hp] at hc
    obtain ⟨hkr, m, hm, j, hw⟩ := hit_origin h.fresh hn hp
    obtain rfl : k = r.key := Option.some.inj (hk.symm.trans hkr)
    rcases hc with ⟨-, rfl⟩ | hr
    · exact .refused
    · exact replayed r ⟨m, hm, j, .inr hw⟩ hw.completed_status rfl hr
  | missing b =>
    rw [hp] at hknows
    exact hknows.elim
  | read b r =>
    rw [hp] at hknows hc
    obtain ⟨l, hl, hr, -⟩ := hknows
    obtain ⟨rfl, -⟩ := stored_origin h.fresh (by omega) (found hr)
    rw [hc.2]
    exact .refused
  | judged b r t =>
    rw [hp] at hknows hc hretry
    obtain ⟨l, hr, hd, l', hl', hll, ht⟩ := hknows
    obtain rfl := told ht
    obtain ⟨hkr, hw⟩ := stored_origin h.fresh (by omega) (found hr)
    rcases hc with ⟨-, k', hk', rfl⟩ | ⟨hst, hrep⟩ | ⟨ho, reason, rfl⟩
    · obtain rfl : k = k' := Option.some.inj (hk.symm.trans hk')
      exact .held
    · exact replayed r (hw.mono (by omega)) hst hkr hrep
    · obtain ⟨⟨m, j, hcl⟩, hrepl, hdone, hnot⟩ :=
        h.overtaken (found hr) (Nat.le_of_lt hll) (by omega) ho
      cases b with
      | true => exact absurd (hd rfl) hnot
      | false =>
        exact .unsettled (hretry reason rfl nofun rfl) hcl hkr hr ht hll hrepl ⟨hnot, hdone⟩
  | apart => exact absurd hp hapart
  | running r => rw [hp] at unstarted; exact absurd trivial unstarted
  | ended r a => rw [hp] at unstarted; exact absurd trivial unstarted
  | stored r a w => rw [hp] at unstarted; exact absurd trivial unstarted
  | dropped r f => rw [hp] at unstarted; exact absurd trivial unstarted
  | denied b => rw [hp] at hc; exact hc.elim
  | holding r => rw [hp] at hc; exact hc.elim
  | clearing => rw [hp] at hc; exact hc.elim

/-! ### At most once -/

/-- **Two starts for a key have two claims behind them, between which the key came free.  In a
steady execution the function is started once, and every other call ends as `EndsWithout` says.** -/
theorem run_at_most_once (enabled : ∀ i, (calls i).key? = some k → ¬ (calls i).isApart) :
    (∀ m n i j, x.Starts m i → x.Starts n j → (calls i).key? = some k →
      (calls j).key? = some k → m ≠ n →
      ∃ a < m, ∃ b < n, ∃ r r', x.Changes a i (.claimed r) ∧ x.Changes b j (.claimed r') ∧
        r.key = k ∧ r'.key = k ∧ (a < b ∧ x.Freed k a b ∨ b < a ∧ x.Freed k b a)) ∧
    (x.Steady k →
      (∀ m n i j, x.Starts m i → x.Starts n j → (calls i).key? = some k →
        (calls j).key? = some k → m = n) ∧
      ∀ i result, (calls i).key? = some k → x.Ends i (.returned result) →
        (∀ n, ¬ x.Starts n i) → x.EndsWithout k i result) := by
  have claims : ∀ m n i j, x.Starts m i → x.Starts n j → (calls i).key? = some k →
      (calls j).key? = some k → m ≠ n →
      ∃ a < m, ∃ b < n, ∃ r r', x.Changes a i (.claimed r) ∧ x.Changes b j (.claimed r') ∧
        r.key = k ∧ r'.key = k ∧ a ≠ b := by
    intro m n i j hm hn hi hj hne
    obtain ⟨a, ha, r, hr, hkr⟩ := hm.claimed (enabled i hi)
    obtain ⟨b, hb, r', hr', hkr'⟩ := hn.claimed (enabled j hj)
    refine ⟨a, ha, b, hb, r, r', hr, hr', Option.some.inj (hkr.symm.trans hi),
      Option.some.inj (hkr'.symm.trans hj), ?_⟩
    rintro rfl
    obtain ⟨rfl, -⟩ := hr.unique hr'
    exact hne (hm.unique hn (enabled i hi))
  refine ⟨?_, fun steady => ⟨?_, ?_⟩⟩
  · intro m n i j hm hn hi hj hne
    obtain ⟨a, ha, b, hb, r, r', hr, hr', hk, hk', hab⟩ := claims m n i j hm hn hi hj hne
    refine ⟨a, ha, b, hb, r, r', hr, hr', hk, hk', ?_⟩
    rcases Nat.lt_or_gt_of_ne hab with hlt | hlt
    · exact .inl ⟨hlt, hk ▸ hr.freed hr' (hk.trans hk'.symm) hlt⟩
    · exact .inr ⟨hlt, hk' ▸ hr'.freed hr (hk'.trans hk.symm) hlt⟩
  · intro m n i j hm hn hi hj
    by_contra hne
    obtain ⟨a, -, b, -, r, r', hr, hr', hk, hk', hab⟩ := claims m n i j hm hn hi hj hne
    exact hab (steady.claimed_unique hr hr' hk hk')
  · intro i result hi hends hwithout
    exact steady.endsWithout hi (enabled i hi) hends hwithout

/-! ### One order, charged by several calls -/

theorem steady_of_events (fresh : x.Fresh)
    (kept : ∀ n < x.length, (change? (x.event n)).map Prod.snd ≠ some (.removed k))
    (inForce : ∀ n ≤ x.length,
      (x.stored n k).all (fun r => !r.isReplaceable (x.state n).now) = true) : x.Steady k := by
  refine ⟨fresh, ?_, ?_⟩
  · intro n i hc
    obtain ⟨hn, he⟩ := changes_iff.mp hc
    have hk := kept n hn
    rw [he] at hk
    exact hk rfl
  · intro n hn r hr
    have hf := inForce n hn
    rw [hr] at hf
    simpa using hf

/-- Two calls for the order, each with a second to go; the second one may not try again. -/
def guests (first : Bool) : Call Unit String :=
  charge (if first then 2 else 0) (.run plain (some 1000))

/-- The first call ends before the second one claims. -/
def inTurn : Interleaved guests :=
  playCalls guests (fun _ => .ok "receipt") (turns true 11 ++ turns false 10)

theorem inTurn_course :
    inTurn.Starts 6 true ∧ (guests true).key? = some order ∧ (guests false).key? = some order ∧
      inTurn.returned? false inTurn.length = some (.inr "receipt") ∧
      (∀ n < inTurn.length, (change? (inTurn.event n)).map Prod.snd ≠ some (.removed order)) ∧
      (∀ n ≤ inTurn.length,
        (inTurn.stored n order).all (fun r => !r.isReplaceable (inTurn.state n).now) = true) := by
  decide +kernel

/-- Of two calls that take their turns the first one alone starts the function, and the second one
ends with what the first one has stored. -/
theorem inTurn_starts_once :
    inTurn.Starts 6 true ∧ (¬ ∃ n, inTurn.Starts n false) ∧
      inTurn.EndsWithout order false (.ok "receipt") := by
  obtain ⟨starts, hfirst, hsecond, ends, kept, inForce⟩ := inTurn_course
  have steady : inTurn.Steady order := steady_of_events ⟨rfl, fun _ => rfl⟩ kept inForce
  obtain ⟨once, others⟩ := (run_at_most_once fun _ _ => charge_enabled _ _).2 steady
  have without : ∀ n, ¬ inTurn.Starts n false := by
    intro n hs
    obtain rfl := once n 6 false true hs starts hsecond hfirst
    cases (Execution.Says.unique hs starts).1
  refine ⟨starts, fun ⟨n, hs⟩ => without n hs, ?_⟩
  exact others false _ hsecond (ends_of_returned? (Nat.le_refl _) ends) without

/-- The first call completes its claim after the second one has read it, and the second one judges
it after its deadline. -/
def nearMiss : Interleaved guests :=
  playCalls guests (fun _ => .ok "receipt")
    (turns true 7 ++ turns false 6 ++ turns true 4 ++ [.inr 2000] ++ turns false 3)

/-- Two calls for the order, and an administrative removal of its record. -/
def clerks (i : Fin 3) : Call Unit String :=
  charge 2 (if i = 2 then .delete else .run plain none)

/-- The first call claims, the record is removed, and the second call claims and starts before the
first one starts. -/
def overtaking : Interleaved clerks :=
  playCalls clerks (fun _ => .ok "receipt") (turns 0 5 ++ turns 2 1 ++ turns 1 7 ++ turns 0 2)

theorem nearMiss_course :
    (guests false).key? = some order ∧
      (∀ n < nearMiss.length, starter? (nearMiss.event n) ≠ some false) ∧
      nearMiss.returned? false nearMiss.length = some (.inl (.inconsistentState
        ("in progress record for " ++ order.text ++ " expired after a conflicting write"))) ∧
      (∀ n < nearMiss.length, (change? (nearMiss.event n)).map Prod.snd ≠ some (.removed order)) ∧
      (∀ n ≤ nearMiss.length,
        (nearMiss.stored n order).all (fun r => !r.isReplaceable (nearMiss.state n).now) =
          true) := by
  decide +kernel

theorem overtaking_course :
    overtaking.Starts 12 1 ∧ overtaking.Starts 14 0 ∧
      overtaking.Changes 10 1 (.claimed ⟨order, .inProgress, some 3600, none, none, none⟩) ∧
      overtaking.Changes 4 0 (.claimed ⟨order, .inProgress, some 3600, none, none, none⟩) ∧
      (∀ t < 14, 10 < t → change? (overtaking.event t) = none) ∧
      overtaking.stored 4 order = none := by
  decide +kernel

/-- The claims need not lie in the order of the starts, and a call without retries may end with an
inconsistent state. -/
theorem starts_out_of_order :
    (¬ ∀ (calls : Fin 3 → Call Unit String) (x : Interleaved calls) (k : Key),
      (∀ i, ¬ (calls i).isApart) → x.Fresh →
      ∀ m n i j a b r r', x.Starts m i → x.Starts n j → m < n →
        x.Changes a i (.claimed r) → x.Changes b j (.claimed r') → r.key = k → r'.key = k →
        (∃ t, a < t ∧ t < n ∧ ∃ l, x.Changes t l (.removed k)) ∨
          ∃ old, x.stored b k = some old ∧ old.isReplaceable (x.state b).now = true) ∧
    ¬ ∀ (calls : Bool → Call Unit String) (x : Interleaved calls) (k : Key),
      (∀ i, ¬ (calls i).isApart) → x.Steady k →
      ∀ i enc left result, (calls i).key? = some k → (calls i).task = .run enc left →
        x.Ends i (.returned result) → (∀ n, ¬ x.Starts n i) →
        (∃ n j w, x.Changes n j (.completed w) ∧ w.key = k ∧ result =
          (calls i).engine.replay enc ⟨k, (calls i).engine.functionName⟩ w) ∨
        result = .error (.alreadyInProgress k) ∨ result = .error (.payloadValidation k) ∨
        ∃ reason, result = .error (.serialization reason) := by
  constructor
  · intro claim
    obtain ⟨hfirst, hlater, hsecond, hclaim, still, free⟩ := overtaking_course
    rcases claim clerks overtaking order (fun _ => charge_enabled _ _) ⟨rfl, fun _ => rfl⟩ 12 14 1 0
      10 4 _ _ hfirst hlater (by omega) hsecond hclaim rfl rfl with
      ⟨t, hat, ht, l, hc⟩ | ⟨old, hold, -⟩
    · rw [changes_iff, still t ht hat] at hc
      cases hc.2
    · rw [free] at hold
      cases hold
  · intro claim
    obtain ⟨hkey, hstarts, hends, kept, inForce⟩ := nearMiss_course
    have steady : nearMiss.Steady order := steady_of_events ⟨rfl, fun _ => rfl⟩ kept inForce
    have without : ∀ n, ¬ nearMiss.Starts n false := by
      intro n hs
      obtain ⟨hn, he⟩ := starts_iff.mp hs
      exact hstarts n hn he
    rcases claim guests nearMiss order (fun _ => charge_enabled _ _) steady false plain (some 1000)
      _ hkey rfl (ends_of_returned? (Nat.le_refl _) hends) without with
      ⟨n, j, w, -, -, hr⟩ | hr | hr | ⟨_, hr⟩
    · obtain ⟨reason, he⟩ := replay_error hr.symm
      cases he
    · cases hr
    · cases hr
    · cases hr

end AtMostOnce.Engine.Interleaved
