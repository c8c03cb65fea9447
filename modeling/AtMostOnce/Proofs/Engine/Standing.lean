/-
How long a record stands.

A record in force keeps every new claim away, so while it is in force only calls that
were granted a claim before it was written can still change it.  They do: completing
and giving up are not conditional on the record that is there, and a call whose claim
was taken over does not know that it was.  Both main theorems say that this is the
only way, for the record of a holder (`claim_stands_iff`) and for a completed one
(`completed_stands_iff`).

The induction is on the time since the record was written, with the record in place up
to then as its hypothesis: that is what keeps the claims away.
-/
import AtMostOnce.Proofs.Engine.Interleaved

namespace AtMostOnce.Engine.Interleaved

variable {κ α ι : Type} [DecidableEq κ] [DecidableEq ι] {calls : ι → Call κ α}
  (x : Interleaved calls)

/-- The record stands under the key after the `m`-th event up to before the `n`-th one. -/
def Stands (k : Key) (r : Record) (m n : Nat) : Prop :=
  ∀ t ≤ n, m < t → x.stored t k = some r

/-- No administrative removal of the key lies strictly between two events. -/
def Kept (k : Key) (m n : Nat) : Prop :=
  ∀ t < n, m < t → ∀ i, (calls i).task = .delete → ¬ x.Changes t i (.removed k)

/-- The call was granted a claim before the `m`-th event. -/
def GrantedBefore (m : Nat) (i : ι) : Prop := ∃ l < m, ∃ r, x.Changes l i (.claimed r)

variable {x} {m n : Nat} {i : ι} {k : Key} {r : Record}

/-- A record that may not be replaced stands if the calls that were granted a claim up to its
writing leave it. -/
theorem stands_iff (hn : n ≤ x.length) (set : x.stored (m + 1) k = some r)
    (kept : x.Kept k m n)
    (inForce : ∀ t < n, m < t → r.isReplaceable (x.state t).now = false) :
    x.Stands k r m n ↔ ∀ t < n, m < t → ∀ j c, x.Changes t j c → c.key = k →
      x.GrantedBefore (m + 1) j → c.left? = some r := by
  constructor
  · intro stands t ht hmt j c hc hk _
    have hs := stands (t + 1) ht (by omega)
    rw [hc.stored, if_pos hk] at hs
    exact hs
  · intro left t
    induction t using Nat.strong_induction_on with
    | _ t ih =>
      intro ht hmt
      rcases Nat.lt_or_eq_of_le (Nat.succ_le_of_lt hmt) with hlt | heq
      · obtain ⟨t, rfl⟩ : ∃ t', t = t' + 1 := ⟨t - 1, by omega⟩
        have before : ∀ l ≤ t, m < l → x.stored l k = some r :=
          fun l hl hml => ih l (by omega) (by omega) hml
        -- as long as it stands, no claim of the key is granted
        have away : ∀ l ≤ t, m < l → ∀ j claim, x.Changes l j (.claimed claim) →
            claim.key ≠ k := by
          intro l hl hml j claim hc hk
          have hr := hc.replaces (by rw [hk]; exact before l hl hml)
          rw [inForce l (by omega) hml] at hr
          cases hr
        rcases stored_succ_cases (Nat.lt_of_succ_le (Nat.le_trans ht hn)) k with
          ⟨j, c, hc, hk, hs⟩ | hs
        · rw [hs]
          rcases hc.cases with ⟨claim, rfl⟩ | ⟨hj, k', rfl⟩ | ⟨l, hl, claim, hg, hkey, -⟩
          · exact absurd hk (away t (Nat.le_refl t) (by omega) j claim hc)
          · cases hk
            exact absurd hc (kept t (by omega) (by omega) j hj)
          · refine left t (by omega) (by omega) j c hc hk ⟨l, ?_, claim, hg⟩
            by_contra hml
            exact away l (Nat.le_of_lt hl) (by omega) j claim hg (hkey.trans hk)
        · rw [hs]
          exact before t (Nat.le_refl t) (by omega)
      · rw [← heq]
        exact set

/-! ### Claims -/

/-- **The record of a holder stands, as long as its claim is in force and the holder itself does
not end it, unless a call that was granted a claim earlier ends.** -/
theorem claim_stands_iff (hn : n ≤ x.length) (granted : x.Changes m i (.claimed r))
    (holding : ∀ t < n, m < t → ∀ c, ¬ x.Changes t i c)
    (kept : x.Kept r.key m n)
    (inForce : ∀ t < n, m < t → r.isReplaceable (x.state t).now = false) :
    x.Stands r.key r m n ↔ ∀ t < n, m < t → ∀ j c, x.Changes t j c → c.key = r.key →
      ¬ x.GrantedBefore m j := by
  have set : x.stored (m + 1) r.key = some r := granted.stored_key
  rw [stands_iff hn set kept inForce]
  constructor
  · rintro left t ht hmt j c hc hk ⟨l, hl, claim, hg⟩
    have hs := left t ht hmt j c hc hk ⟨l, by omega, claim, hg⟩
    -- a call with a claim can only complete or remove, and neither leaves a record in progress
    cases c with
    | claimed r' =>
      have hlt := hg.claimed_unique hc
      omega
    | completed w =>
      obtain ⟨claim', a, -, ⟨_, _, _, _, _, _, rfl⟩, -⟩ := hc.completed
      obtain ⟨_, _, _, _, _, rfl⟩ := granted.claimed.choose_spec.2.2
      cases hs
    | removed k' => cases hs
  · rintro free t ht hmt j c hc hk ⟨l, hl, claim, hg⟩
    refine absurd ?_ (free t ht hmt j c hc hk)
    rcases Nat.lt_or_eq_of_le (Nat.le_of_lt_succ hl) with hlt | rfl
    · exact ⟨l, hlt, claim, hg⟩
    · obtain ⟨rfl, -⟩ := granted.unique hg
      exact absurd hc (holding t ht hmt c)

/-! ### A claim that is taken over

The first call has a second to go and takes two.  The second call takes the order over, and the
first one ends while the second one's function is running.
-/

/-- Two calls for the order, each with a second to go. -/
def rivals (_ : Bool) : Call Unit String := charge 2 (.run plain (some 1000))

def receipt (first : Bool) : Except Failure String := .ok (if first then "first" else "second")

/-- The first call claims and starts, and is taken over by the second one before it ends. -/
def takeover : Interleaved rivals :=
  playCalls rivals receipt
    (turns true 7 ++ [.inr 2000] ++ turns false 7 ++ turns true 4 ++ turns false 4)

def secondClaim : Record := ⟨order, .inProgress, some 3602, some 3000, none, none⟩

theorem takeover_course :
    18 ≤ takeover.length ∧ takeover.Changes 12 false (.claimed secondClaim) ∧
      (∀ t < 18, 12 < t → (change? (takeover.event t)).map Prod.fst ≠ some false) ∧
      (∀ t ≤ 18, 12 < t → secondClaim.isReplaceable (takeover.state t).now = false) ∧
      (∀ t < 17, 12 < t → change? (takeover.event t) = none) ∧
      takeover.stored 18 order ≠ some secondClaim := by
  decide +kernel

/-- The second call's claim stands until the first call completes. -/
theorem takeover_stands : takeover.Stands order secondClaim 12 17 := by
  obtain ⟨hlength, granted, holding, inForce, free, -⟩ := takeover_course
  refine (claim_stands_iff (by omega) granted
    (fun t ht hm => not_changes (holding t (by omega) hm)) nofun
    (fun t ht hm => inForce t (by omega) hm)).mpr ?_
  intro t ht hm j c hc
  rw [changes_iff, free t ht hm] at hc
  cases hc.2

/-- A claim in force may be overwritten by a call that it has taken over. -/
theorem claim_overwritten :
    ¬ ∀ (calls : Bool → Call Unit String) (x : Interleaved calls) (m n : Nat) (i : Bool)
      (r : Record), n ≤ x.length → x.Changes m i (.claimed r) →
      (∀ t < n, m < t → ∀ c, ¬ x.Changes t i c) → x.Kept r.key m n →
      (∀ t ≤ n, m < t → r.isReplaceable (x.state t).now = false) → x.Stands r.key r m n := by
  intro claim
  obtain ⟨hlength, granted, holding, inForce, -, gone⟩ := takeover_course
  have stands := claim rivals takeover 12 18 false secondClaim hlength granted
    (fun t ht hm => not_changes (holding t ht hm)) nofun inForce
  exact gone (stands 18 (Nat.le_refl 18) (by omega))

/-! ### Completed records -/

/-- **A completed record stands until it expires, unless a call that was granted a claim earlier
ends in another way than with this very record.** -/
theorem completed_stands_iff (hn : n ≤ x.length) (completed : x.Changes m i (.completed r))
    (kept : x.Kept r.key m n)
    (inForce : ∀ t < n, m < t → r.isExpired (secondsOf (x.state t).now) = false) :
    x.Stands r.key r m n ↔ ∀ t < n, m < t → ∀ j c, x.Changes t j c → c.key = r.key →
      x.GrantedBefore m j → c = .completed r := by
  have set : x.stored (m + 1) r.key = some r := completed.stored_key
  have hstatus : r.status = .completed := by
    obtain ⟨claim, a, -, ⟨_, _, _, _, _, _, rfl⟩, -⟩ := completed.completed
    rfl
  have unreplaceable : ∀ t < n, m < t → r.isReplaceable (x.state t).now = false := by
    intro t ht hmt
    rw [Record.isReplaceable, inForce t ht hmt, hstatus]
    rfl
  rw [stands_iff hn set kept unreplaceable]
  constructor
  · rintro left t ht hmt j c hc hk ⟨l, hl, claim, hg⟩
    have hs := left t ht hmt j c hc hk ⟨l, by omega, claim, hg⟩
    cases c with
    | claimed r' =>
      have hlt := hg.claimed_unique hc
      omega
    | completed w =>
      cases hs
      rfl
    | removed k' => cases hs
  · rintro same t ht hmt j c hc hk ⟨l, hl, claim, hg⟩
    rcases Nat.lt_or_eq_of_le (Nat.le_of_lt_succ hl) with hlt | rfl
    · rw [same t ht hmt j c hc hk ⟨l, hlt, claim, hg⟩]
      rfl
    · obtain ⟨-, hne⟩ := completed.unique hg
      cases hne

/-! ### A completed record that is replaced

As before, but the second call ends first.
-/

/-- The first call is taken over, and ends after the second one. -/
def afterthought : Interleaved rivals :=
  playCalls rivals receipt (turns true 7 ++ [.inr 2000] ++ turns false 11 ++ turns true 4)

def secondResult : Record := ⟨order, .completed, some 3602, none, some "second", none⟩

theorem afterthought_course :
    22 ≤ afterthought.length ∧ afterthought.Changes 17 false (.completed secondResult) ∧
      (∀ t ≤ 22, 17 < t →
        secondResult.isExpired (secondsOf (afterthought.state t).now) = false) ∧
      (∀ t < 21, 17 < t → change? (afterthought.event t) = none) ∧
      afterthought.stored 22 order ≠ some secondResult := by
  decide +kernel

/-- The second call's result stands until the first call completes. -/
theorem afterthought_stands : afterthought.Stands order secondResult 17 21 := by
  obtain ⟨hlength, completed, inForce, free, -⟩ := afterthought_course
  refine (completed_stands_iff (by omega) completed nofun
    fun t ht hm => inForce t (by omega) hm).mpr ?_
  intro t ht hm j c hc
  rw [changes_iff, free t ht hm] at hc
  cases hc.2

/-- A completed record that has not expired may be replaced by a call that was taken over. -/
theorem completed_overwritten :
    ¬ ∀ (calls : Bool → Call Unit String) (x : Interleaved calls) (m n : Nat) (i : Bool)
      (r : Record), n ≤ x.length → x.Changes m i (.completed r) → x.Kept r.key m n →
      (∀ t ≤ n, m < t → r.isExpired (secondsOf (x.state t).now) = false) →
      x.Stands r.key r m n := by
  intro claim
  obtain ⟨hlength, completed, inForce, -, gone⟩ := afterthought_course
  have stands := claim rivals afterthought 17 22 false secondResult hlength completed nofun inForce
  exact gone (stands 22 (Nat.le_refl 22) (by omega))

end AtMostOnce.Engine.Interleaved
