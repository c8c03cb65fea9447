/-
Where records come from.

At a site that begins with nothing, every record in the ledger was claimed or
completed by some call, every record that a call reads was in the ledger, and every
record in a cache was completed.  The last one needs the first two: a call puts into
its cache what it has completed itself, or what it has read and found completed.
-/
import AtMostOnce.Proofs.Engine.Interleaved

namespace AtMostOnce.Engine

variable {κ α ι : Type} [DecidableEq κ] [DecidableEq ι] {calls : ι → Call κ α}

/-- The record that was read from the ledger, if one was. -/
def Phase.read? : Phase α → Option Record
  | .read _ r | .judged _ r _ => some r
  | _ => none

namespace Site

theorem mem_setCache {s : Site κ} {i c : κ} {d : Cache} {r : Record}
    (h : r ∈ ((s.setCache i d).caches c).records) :
    r ∈ d.records ∨ r ∈ (s.caches c).records := by
  change r ∈ (Function.update s.caches i d c).records at h
  by_cases hc : c = i
  · rw [hc, Function.update_self] at h
    exact .inl h
  · rw [Function.update_of_ne hc] at h
    exact .inr h

/-- Only what is kept comes into a cache. -/
theorem mem_reply_caches {s : Site κ} {i c : κ} {outcome : Except Failure α} {q : Request}
    {r : Record} (h : r ∈ ((s.reply i outcome q).2.caches c).records) :
    q = .keep r ∨ ∃ c, r ∈ (s.caches c).records := by
  cases q with
  | cached k =>
    rcases mem_setCache h with h | h
    · exact .inr ⟨i, Cache.mem_get h⟩
    · exact .inr ⟨c, h⟩
  | keep r' =>
    rcases mem_setCache h with h | h
    · rcases Cache.mem_put h with ⟨rfl, -⟩ | h
      · exact .inl rfl
      · exact .inr ⟨i, h⟩
    · exact .inr ⟨c, h⟩
  | forget k =>
    rcases mem_setCache h with h | h
    · exact .inr ⟨i, Cache.mem_erase h⟩
    · exact .inr ⟨c, h⟩
  | _ => exact .inr ⟨c, h⟩

end Site

namespace Interleaved

variable (x : Interleaved calls)

/-- The site begins without records. -/
structure Fresh : Prop where
  records : (x.state 0).records = []
  caches : ∀ i, ((x.state 0).caches i).records = []

/-- The record was completed by a call before the `n`-th event. -/
def CompletedBefore (n : Nat) (r : Record) : Prop := ∃ m < n, ∃ i, x.Changes m i (.completed r)

/-- The record was claimed or completed by a call before the `n`-th event. -/
def WrittenBefore (n : Nat) (r : Record) : Prop :=
  ∃ m < n, ∃ i, x.Changes m i (.claimed r) ∨ x.Changes m i (.completed r)

variable {x} {m n : Nat} {i j : ι} {k : Key} {r : Record}

theorem CompletedBefore.mono (h : x.CompletedBefore m r) (hmn : m ≤ n) : x.CompletedBefore n r := by
  obtain ⟨l, hl, i, hc⟩ := h
  exact ⟨l, by omega, i, hc⟩

theorem WrittenBefore.mono (h : x.WrittenBefore m r) (hmn : m ≤ n) : x.WrittenBefore n r := by
  obtain ⟨l, hl, i, hc⟩ := h
  exact ⟨l, by omega, i, hc⟩

theorem Changes.claimed_status (h : x.Changes n i (.claimed r)) : r.status = .inProgress := by
  obtain ⟨-, -, -, _, _, _, -, rfl⟩ := h.claimed
  rfl

theorem Changes.completed_status (h : x.Changes n i (.completed r)) : r.status = .completed := by
  obtain ⟨-, -, -, ⟨_, _, _, _, _, _, rfl⟩, -⟩ := h.completed
  rfl

/-! ### The ledger -/

theorem stored_origin (fresh : x.Fresh) (hn : n ≤ x.length) (h : x.stored n k = some r) :
    r.key = k ∧ x.WrittenBefore n r := by
  induction n with
  | zero =>
    unfold stored at h
    rw [fresh.records] at h
    cases h
  | succ n ih =>
    rcases stored_succ_cases (Nat.lt_of_succ_le hn) k with ⟨i, c, hc, hk, hs⟩ | hs
    · rw [h] at hs
      cases c with
      | claimed r' =>
        cases hs
        exact ⟨hk, n, by omega, i, .inl hc⟩
      | completed r' =>
        cases hs
        exact ⟨hk, n, by omega, i, .inr hc⟩
      | removed k' => cases hs
    · obtain ⟨hk, hw⟩ := ih (by omega) (hs ▸ h)
      exact ⟨hk, hw.mono (by omega)⟩

theorem WrittenBefore.completed (h : x.WrittenBefore n r) (hs : r.status = .completed) :
    x.CompletedBefore n r := by
  obtain ⟨m, hm, i, hc | hc⟩ := h
  · rw [hc.claimed_status] at hs
    cases hs
  · exact ⟨m, hm, i, hc⟩

/-! ### What a call has read -/

theorem read_shown (hn : n ≤ x.length) (h : (x.phaseOf i n).read? = some r) :
    ∃ m < n, ∃ k, (calls i).key? = some k ∧ x.Says m i (.ledger (.find k)) (.ok r) := by
  obtain ⟨m, hm, q, a, s, s', hs, hfrom, -, hmove, hnot, hp⟩ :=
    phaseOf_arises (p := fun s => s.read? = some r) nofun nofun nofun hn h
  have hall := allowed hs
  rw [hfrom] at hall
  cases hmove with
  | reads b k r' =>
    cases hp
    exact ⟨m, hm, k, hall.2, hs⟩
  | retriesJudged => cases hp
  | _ => exact absurd hp hnot

theorem read_origin (hn : n ≤ x.length) (h : (x.phaseOf i n).read? = some r) :
    ∃ m < n, ∃ k, (calls i).key? = some k ∧ x.stored m k = some r := by
  obtain ⟨m, hm, k, hk, hs⟩ := read_shown hn h
  exact ⟨m, hm, k, hk, found hs⟩

/-! ### The caches -/

theorem stored_completes {claim : Record} {a : α} (hn : n ≤ x.length)
    (h : x.phaseOf i n = .stored claim a r) : ∃ m < n, x.Changes m i (.completed r) := by
  obtain ⟨m, hm, q, a', s, s', hs, -, -, hmove, hnot, hp⟩ :=
    phaseOf_arises (p := fun s => s = .stored claim a r) nofun nofun nofun hn h
  subst hp
  cases hmove with
  | stays => exact absurd rfl hnot
  | stores r' a w ok =>
    obtain rfl : ok = .ok () := honest hs
    exact ⟨m, hm, hs⟩

theorem kept_origin (fresh : x.Fresh) (h : x.Says n i (.keep r) ()) : x.CompletedBefore n r := by
  have hn := Nat.le_of_lt h.1
  have hall : (∃ b t, x.phaseOf i n = .judged b r t ∧ r.status = .completed ∧
      r.isExpired (secondsOf t) = false) ∨ ∃ claim a, x.phaseOf i n = .stored claim a r := allowed h
  rcases hall with ⟨b, t, hp, hs, -⟩ | ⟨claim, a, hp⟩
  · obtain ⟨m, hm, k, -, hr⟩ := read_origin (r := r) hn (by rw [hp]; rfl)
    exact ((stored_origin fresh (by omega) hr).2.completed hs).mono (Nat.le_of_lt hm)
  · obtain ⟨m, hm, hc⟩ := stored_completes hn hp
    exact ⟨m, hm, i, hc⟩

theorem cached_origin (fresh : x.Fresh) (hn : n ≤ x.length) (c : κ)
    (h : r ∈ ((x.state n).caches c).records) : x.CompletedBefore n r := by
  induction n generalizing c with
  | zero =>
    rw [fresh.caches] at h
    cases h
  | succ n ih =>
    have before : ∀ c, r ∈ ((x.state n).caches c).records → x.CompletedBefore (n + 1) r :=
      fun c hr => (ih (by omega) c hr).mono (by omega)
    have hstep := x.step n (Nat.lt_of_succ_le hn)
    cases he : x.event n with
    | drift =>
      rw [he] at hstep
      obtain ⟨⟨t, ht⟩, -⟩ := hstep
      rw [ht] at h
      exact before c h
    | exchange i q a =>
      have hs : x.Says n i q a := ⟨Nat.lt_of_succ_le hn, he⟩
      obtain ⟨outcome, ha⟩ := hs.answers
      have hstate : ((x.state n).reply (calls i).cache outcome q).2 = x.state (n + 1) :=
        congrArg Prod.snd ha
      rw [← hstate] at h
      rcases Site.mem_reply_caches h with rfl | ⟨c', hc'⟩
      · exact (kept_origin fresh hs).mono (by omega)
      · exact before c' hc'

theorem hit_shown (hn : n ≤ x.length) (h : x.phaseOf i n = .hit r) :
    ∃ m < n, ∃ k, (calls i).key? = some k ∧ x.Says m i (.cached k) (some r) := by
  obtain ⟨m, hm, q, a, s, s', hs, hfrom, -, hmove, hnot, hp⟩ :=
    phaseOf_arises (p := fun s => s = .hit r) nofun nofun nofun hn h
  have hall := allowed hs
  rw [hfrom] at hall
  subst hp
  cases hmove with
  | stays => exact absurd rfl hnot
  | hits b k => exact ⟨m, hm, k, hall.2, hs⟩

/-- A record that a cache gives away was completed, under the key that was looked up. -/
theorem cached_completed (fresh : x.Fresh) (h : x.Says n i (.cached k) (some r)) :
    r.key = k ∧ x.CompletedBefore n r := by
  obtain ⟨outcome, ha⟩ := h.answers
  obtain ⟨hmem, hk⟩ := Cache.get_some (congrArg Prod.fst ha)
  exact ⟨hk, cached_origin fresh (Nat.le_of_lt h.1) _ hmem⟩

/-- A record that a call finds in a cache was completed, under the key of the call. -/
theorem hit_origin (fresh : x.Fresh) (hn : n ≤ x.length) (h : x.phaseOf i n = .hit r) :
    (calls i).key? = some r.key ∧ x.CompletedBefore n r := by
  obtain ⟨m, hm, k, hk, hs⟩ := hit_shown hn h
  obtain ⟨rfl, hc⟩ := cached_completed fresh hs
  exact ⟨hk, hc.mono (Nat.le_of_lt hm)⟩

end Interleaved

end AtMostOnce.Engine
